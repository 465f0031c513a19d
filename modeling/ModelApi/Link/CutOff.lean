import ModelApi.Link.Run

/-!
# Requests without an answer

A call whose request was written in full returns an error that is not the slot's only when the
handler has ended, and while the client holds the connection a handler does not end by itself: one
of its reads or writes has failed, or the client has shut the connection down.
-/

namespace ModelApi

open Lib

namespace Client

variable [ToString BincodeError] {s t : State} {l : Label}

/-- A reading call that fails has found the end of the stream. -/
lemma Inv.closed_of_fail (h : Inv s) {i : ℕ} {c : Call} (hi : s.calls i = some c)
    (hpc : c.pc = .reading) (hop : c.op.isInference = true) {src src' : Source IoError}
    {rest : List UInt8} (hmeets : Meets s src rest) (hclean : CleanRead src)
    {result : Except ClientError (Option ServerMessage)}
    (hread : readServerFrame src = some (result, src')) {e : ClientError}
    (hhandle : c.op.handle result = .finish (.error e)) (he : ∀ message, e ≠ .server message) :
    s.closed = true := by
  obtain ⟨msgs, hmsgs, -⟩ := h.stream.awaiting i c hi hpc hop
  rcases hmsgs.read hmeets hclean hread with ⟨msg, msgs', -, rfl, -⟩ | ⟨-, hclosed, -⟩
  · exfalso
    cases hterm : msg.isTerminal with
    | false =>
      rcases Op.handle_of_not_isTerminal hop hterm with ⟨hgo, -⟩ | ⟨ev, hgo, -, -⟩ <;>
        · rw [hgo] at hhandle
          cases hhandle
    | true =>
      obtain ⟨resp, hr⟩ | ⟨message, hr⟩ : (∃ resp, msg = .inferenceComplete resp) ∨
          ∃ message, msg = .inferenceError message := by
        cases msg with
        | inferenceComplete resp => exact .inl ⟨resp, rfl⟩
        | inferenceError message => exact .inr ⟨message, rfl⟩
        | _ => cases hterm
      · subst hr
        cases hop' : c.op with
        | inference | inferenceStream =>
          rw [hop'] at hhandle
          cases hhandle
        | cancel | shutdown =>
          rw [hop'] at hop
          cases hop
      · subst hr
        cases hop' : c.op with
        | inference | inferenceStream =>
          rw [hop'] at hhandle
          cases hhandle
          exact he message rfl
        | cancel | shutdown =>
          rw [hop'] at hop
          cases hop
  · exact hclosed

/-- Where a call past its write has failed, it had failed before, or the server has hung up. -/
lemma Inv.failed_cases (h : Inv s) (hl : l.Clean) (hst : Step s l t) {i : ℕ} {c c' : Call}
    (hi : s.calls i = some c) (hop : c.op.isInference = true)
    (hpc : c.pc = .reading ∨ ∃ r, c.pc = .done r) (hi' : t.calls i = some c') {e : ClientError}
    (hpc' : c'.pc = .done (.error e)) (he : ∀ message, e ≠ .server message) :
    c.pc = .done (.error e) ∨ s.closed = true := by
  have same : s.calls i = some c' → c.pc = .done (.error e) := by
    intro hsame
    rw [Option.some.inj (hi.symm.trans hsame)]
    exact hpc'
  have other : ∀ {j : ℕ} {d d' : Call}, s.calls j = some d →
      (s.setCall j d').calls i = some c' →
      (i = j → d = c → d' = c' → s.closed = true) → c.pc = .done (.error e) ∨ s.closed = true := by
    intro j d d' hj hset hfinish
    rcases State.setCall_cases hset with ⟨rfl, rfl⟩ | ⟨-, hsame⟩
    · exact .inr (hfinish rfl (Option.some.inj (hj.symm.trans hi)) rfl)
    · exact .inl (same hsame)
  have past : ∀ {j : ℕ} {d d' : Call}, s.calls j = some d →
      (d.pc = .entered ∨ d.pc = .holding) → (s.setCall j d').calls i = some c' →
      c.pc = .done (.error e) ∨ s.closed = true := by
    intro j d d' hj hd hset
    refine other hj hset ?_
    rintro - rfl -
    rcases hpc with hpc | ⟨r, hpc⟩ <;> rcases hd with hd | hd <;>
      · rw [hpc] at hd
        cases hd
  cases hst with
  | @call j op hj =>
    rcases State.setCall_cases hi' with ⟨rfl, rfl⟩ | ⟨-, hsame⟩
    · rw [hi] at hj
      cases hj
    · exact .inl (same hsame)
  | lock hj hd => exact past hj (.inl hd) hi'
  | lockPoisoned hj hd => exact past hj (.inl hd) hi'
  | encodeFails hj hd => exact past hj (.inr hd) hi'
  | writeFails hj hd => exact past hj (.inr hd) hi'
  | writeInference hj hd => exact past hj (.inr hd) hi'
  | writeShutdown hj hd => exact past hj (.inr hd) hi'
  | writeCancel hj hd => exact past hj (.inr hd) hi'
  | readEvent hj hd =>
    refine other hj hi' ?_
    rintro - - rfl
    rw [show _ = Pc.reading from hd] at hpc'
    cases hpc'
  | readPanics hj =>
    refine other hj hi' ?_
    rintro - - rfl
    cases hpc'
  | readFinish hj hd hmeets hread hhandle =>
    refine other hj hi' ?_
    rintro rfl rfl rfl
    cases hpc'
    have hclosed := h.closed_of_fail hj hd hop hmeets hl hread hhandle he
    exact hclosed
  | readOn | serveEvent | serveTerminal | serveOutOfBand | serveStray | close =>
    exact .inl (same hi')

end Client

namespace Link

open Client Server

variable {cfg : Server.Config} {clientVersion : UInt32} {debug : ServerMessage → String}
  {s t : State}

/-! ### Why a handler ends -/

/-- The handler has ended for a reason that lies with the connection or with the client. -/
def Cause (s : Server.State) : Prop :=
  ∃ r, s.pc = .ended r ∧
    (.shutdown ∈ s.received ∨ (∃ e, r = .error (.readHello e) ∨ r = .error (.read e)) ∨
      s.writeFailed = true)

/-- A handler that reads on has not ended, unless it was given no message. -/
lemma afterNext_message_ne_ended {m : ClientMessage} (hm : ∀ v, m ≠ .hello v)
    (r : Except HandlerError Unit) : afterNext (.message m) ≠ .ended r := by
  cases m with
  | hello v => exact absurd rfl (hm v)
  | inference req =>
    rw [afterNext]
    split_ifs <;> simp
  | cancel => simp [afterNext]
  | shutdown => simp [afterNext]

/-- The drain loop and the slot do not end the handler. -/
lemma not_ended_of_runs {server server' : Server.State} (h : (handleClient cfg).Reachable server)
    (hst : Server.Step cfg server server')
    (hpc : server.pc ≠ .readHello ∧ server.pc ≠ .readNext)
    (hwritten : server'.written = server.written)
    (hfailed : server'.writeFailed = server.writeFailed) (hok : server.writeFailed = false)
    (r : Except HandlerError Unit) : server'.pc ≠ .ended r := by
  intro hended
  have hclosed := (Server.inv_of_reachable (h.step hst)).at_pc.not_closed
  cases hst with
  | first _ h => exact hpc.1 h
  | next _ h => exact hpc.2 h
  | refuse h => simp at hwritten
  | refuseFails h => simp [hok] at hfailed
  | write hw => simp at hwritten
  | writeFails hw => simp [hok] at hfailed
  | drain h hcalls hd =>
    cases hd with
    | closed _ => exact hclosed rfl
    | event | empty | finished | yield | tailEvent | drained => cases hended
  | emit h => cases hended
  | finish h => cases hended
  | runReturns h => cases hended

/-- A handler whose write has failed has ended. -/
lemma ended_of_writeFailed {server : Server.State} (h : (handleClient cfg).Reachable server) :
    server.writeFailed = true → ∃ r, server.pc = .ended r := by
  refine h.invariant (P := fun server => server.writeFailed = true → ∃ r, server.pc = .ended r)
    ?_ ?_
  · rintro _ rfl hfailed
    cases hfailed
  · intro server server' hst ih hfailed
    have hok : ¬ server.writeFailed = true := fun hfailed =>
      have ⟨r, hr⟩ := ih hfailed
      not_step_of_ended hr hst
    cases hst with
    | refuseFails | writeFails => exact ⟨_, rfl⟩
    | _ => exact absurd hfailed hok

/-- A handler that writes its last frame was asked to, or refuses the client. -/
lemma shutdown_of_writes {server server' : Server.State}
    (h : (handleClient cfg).Reachable server) (hst : Server.Step cfg server server')
    {f : ServerMessage} (hwritten : server'.written = server.written ++ [f])
    {r : Except HandlerError Unit} (hended : server'.pc = .ended r) :
    .shutdown ∈ server'.received ∨
      ∃ v, v ≠ PROTOCOL_VERSION ∧ server'.received = [.hello v] := by
  have hat := (Server.inv_of_reachable h).at_pc
  cases hst with
  | @refuse v hpc =>
    rw [hpc] at hat
    exact .inr ⟨v, hat.2.1, hat.1⟩
  | write hw =>
    generalize hpc : server.pc = pc at hw
    cases hw with
    | goodbye =>
      rw [hpc] at hat
      obtain ⟨-, rest, -, hsession⟩ := hat
      left
      rw [show _ = server.received from rfl, hsession.received]
      simp
    | hello | event | tailEvent | reply => cases hended
  | first _ _ | next _ _ | refuseFails | writeFails | drain | emit | finish | runReturns =>
    simp at hwritten

/-- A write that ends the handler without a frame has failed. -/
lemma writeFailed_of_fails {server server' : Server.State} (hst : Server.Step cfg server server')
    {f : ServerMessage} (hf : server.pc.frame cfg = some f) {r : Except HandlerError Unit}
    (hended : server'.pc = .ended r) (hwritten : server'.written = server.written) :
    server'.writeFailed = true := by
  cases hst with
  | first _ hpc | next _ hpc | runReturns hpc =>
    rw [hpc] at hf
    cases hf
  | refuse hpc => simp at hwritten
  | write hw => simp at hwritten
  | refuseFails | writeFails => rfl
  | drain hpc hcalls hd =>
    rw [hpc] at hf
    cases hd with
    | closed => cases hf
    | event | empty | finished | yield | tailEvent | drained => cases hended
  | emit | finish => cases hended

/-! ### The invariant -/

/-- What holds of the end of a connection. -/
structure Ends (s : State) : Prop where
  greeted : ∀ m ∈ s.sent.tail, ∀ v, m ≠ .hello v
  ended : (∃ r, s.server.pc = .ended r) → s.upClosed = true ∨ Cause s.server
  cutOff : ∀ i c e, i ∈ s.asked → s.client.calls i = some c → c.pc = .done (.error e) →
    (∀ message, e ≠ .server message) → Cause s.server

lemma Op.message_ne_hello (op : Client.Op) (v : UInt32) : op.message ≠ .hello v := by
  cases op <;> simp [Client.Op.message]

/-- The steps of the handler do not touch the calls, and come to an end with it. -/
lemma Ends.serverStep (h : Ends s) {server : Server.State}
    (hst : Server.Step cfg s.server server) (client : Client.State)
    (hcalls : client.calls = s.client.calls) (up : List UInt8)
    (hended : (∃ r, server.pc = .ended r) → s.upClosed = true ∨ Cause server) :
    Ends { s with client := client, up := up, server := server } where
  greeted := h.greeted
  ended := hended
  cutOff i c e hi hc hpc he := by
    have hc' : client.calls i = some c := hc
    rw [hcalls] at hc'
    obtain ⟨r, hr, -⟩ := h.cutOff i c e hi hc' hpc he
    exact absurd hst (not_step_of_ended hr)

variable [ToString BincodeError]

/-- A read ends the handler where the stream does, or for a reason. -/
lemma Ends.ended_read (h : Ends s) (hinv : Inv cfg PROTOCOL_VERSION s)
    (hpc : s.server.pc = .readHello ∨ s.server.pc = .readNext) {src src' : Source IoError}
    {rest : List UInt8} (hmeets : s.Meets src rest)
    {result : Except IoError (Option ClientMessage)}
    (hread : Server.Framed.readFrameAsync (Bincode.deserialize ClientMessage.format) src =
      some (result, src'))
    (hended : ∃ r, (s.server.read (readResult result)).pc = .ended r) :
    s.upClosed = true ∨ Cause (s.server.read (readResult result)) := by
  have hpc' : ∀ r, s.server.pc ≠ .ended r := by
    rintro r hr
    rw [hr] at hpc
    rcases hpc with hpc | hpc <;> cases hpc
  obtain ⟨later, hsent, hup⟩ := hinv.carries hpc'
  rcases result with e | found
  · right
    rcases hpc with hpc | hpc
    · refine ⟨.error (.readHello e.message), ?_, .inr (.inl ⟨_, .inl rfl⟩)⟩
      rw [Server.State.read, hpc]
      rfl
    · refine ⟨.error (.read e.message), ?_, .inr (.inl ⟨_, .inr rfl⟩)⟩
      rw [Server.State.read, hpc]
      rfl
  · rcases hmeets.read hup hread with ⟨m, later', rfl, rfl, -⟩ | ⟨rfl, -, hclosed⟩
    · -- neither a `Hello` of this version nor a later message ends the handler
      exfalso
      obtain ⟨r, hr⟩ := hended
      have hat := (Server.inv_of_reachable hinv.server).at_pc
      rcases hpc with hpc | hpc
      · rw [hpc] at hat
        rw [hat.1, List.nil_append] at hsent
        rw [Server.State.read, hpc, hinv.head_sent hsent] at hr
        cases hr
      · rw [hpc] at hat
        obtain ⟨-, received, -, hsession⟩ := hat
        rw [hsession.received, List.cons_append] at hsent
        have hm : ∀ v, m ≠ .hello v := by
          apply h.greeted
          rw [hsent]
          simp
        rw [Server.State.read, hpc] at hr
        exact afterNext_message_ne_ended hm r hr
    · exact .inl hclosed

lemma Ends.step (h : Ends s) (hinv : Inv cfg PROTOCOL_VERSION s)
    (hst : Step cfg PROTOCOL_VERSION debug s t) : Ends t := by
  have htalk := hinv.talk
  cases hst with
  | hello hphase =>
    rw [hphase] at htalk
    refine ⟨fun m hm => ?_, h.ended, h.cutOff⟩
    have hm' : m ∈ (s.sent ++ [ClientMessage.hello PROTOCOL_VERSION]).tail := hm
    rw [htalk.1] at hm'
    cases hm'
  | helloFails => exact ⟨h.greeted, fun _ => .inl rfl, h.cutOff⟩
  | welcome hphase =>
    rw [hphase] at htalk
    refine ⟨h.greeted, fun hended => .inr ?_, h.cutOff⟩
    exact (h.ended hended).resolve_left (by rw [htalk.2.1]; decide)
  | call hphase hopen hclean hclient hquiet =>
    rw [hphase] at htalk
    obtain ⟨-, -, -, hsession⟩ := htalk
    refine ⟨h.greeted, h.ended, fun i c e hi hc hpc he => ?_⟩
    obtain ⟨k, hk⟩ := List.mem_iff_getElem?.mp hi
    obtain ⟨req, -, c₀, hc₀, hmessage, hpc₀⟩ := getElem?_of_forall₂ hsession.asked hk
    have hop : c₀.op.isInference = true := by
      cases hop : c₀.op with
      | inference | inferenceStream => rfl
      | cancel | shutdown =>
        rw [hop] at hmessage
        cases hmessage
    rcases hsession.client.failed_cases hclean hclient hc₀ hop hpc₀ hc hpc he with hpc | hclosed
    · exact h.cutOff i c₀ e hi hc₀ hpc he
    · exact (h.ended (hinv.closed hclosed)).resolve_left (by rw [hopen]; decide)
  | @write info i c frame hphase hopen hi hpc henc =>
    rw [hphase] at htalk
    obtain ⟨-, -, hhead, hsession⟩ := htalk
    obtain ⟨c', hcalls, hop', hpc'⟩ := State.wrote_calls (s := s.client) (i := i) (c := c)
    refine ⟨fun m hm => ?_, h.ended, fun j d e hj hd hpd he => ?_⟩
    · have hm' : m ∈ (s.sent ++ [c.op.message]).tail := hm
      rw [List.tail_append_of_ne_nil (by rintro hnil; rw [hnil] at hhead; cases hhead)] at hm'
      rcases List.mem_append.mp hm' with hm' | hm'
      · exact h.greeted m hm'
      · rw [List.mem_singleton.mp hm']
        exact Op.message_ne_hello c.op
    · have hd' : (s.client.wrote i c).calls j = some d := hd
      by_cases hji : j = i
      · -- this request has just been written
        subst hji
        cases hop : c.op with
        | inference req | inferenceStream req =>
          rw [Client.State.wrote, hop] at hd'
          cases (Function.update_self ..).symm.trans hd'
          cases hpd
        | cancel | shutdown =>
          have hj' : j ∈ s.asked ++ if c.op.isInference then [j] else [] := hj
          rw [hop, show Client.Op.isInference _ = false from rfl] at hj'
          simp only [Bool.false_eq_true, if_false, List.append_nil] at hj'
          obtain ⟨k, hk⟩ := List.mem_iff_getElem?.mp hj'
          obtain ⟨req, -, c₀, hc₀, -, hpc₀⟩ := getElem?_of_forall₂ hsession.asked hk
          obtain rfl := Option.some.inj (hi.symm.trans hc₀)
          rw [hpc] at hpc₀
          rcases hpc₀ with hpc₀ | ⟨r, hpc₀⟩ <;> cases hpc₀
      · rw [hcalls] at hd'
        have hd₀ : s.client.calls j = some d := (Function.update_of_ne hji ..).symm.trans hd'
        refine h.cutOff j d e ?_ hd₀ hpd he
        have hj' : j ∈ s.asked ++ if c.op.isInference then [i] else [] := hj
        rcases List.mem_append.mp hj' with hj' | hj'
        · exact hj'
        · split_ifs at hj'
          · exact absurd (List.mem_singleton.mp hj') hji
          · cases hj'
  | drop => exact ⟨h.greeted, fun _ => .inl rfl, h.cutOff⟩
  | @serverReads src src' rest result hpc hmeets hread =>
    have hst : Server.Step cfg s.server _ := step_read hpc (readResult result)
    exact h.serverStep hst s.client rfl _ (h.ended_read hinv hpc hmeets hread)
  | serverRuns hserver hpc hwritten hfailed =>
    refine h.serverStep hserver s.client rfl s.up ?_
    rintro ⟨r, hr⟩
    refine absurd hr (not_ended_of_runs hinv.server hserver hpc hwritten hfailed ?_ r)
    by_contra hwriteFailed
    obtain ⟨r, hr⟩ := ended_of_writeFailed hinv.server (by simpa using hwriteFailed)
    exact not_step_of_ended hr hserver
  | @serverWrites server f frame hserver hf hwritten henc =>
    refine h.serverStep hserver (s.client.deliver f frame) rfl s.up ?_
    rintro ⟨r, hr⟩
    rcases shutdown_of_writes hinv.server hserver hwritten hr with hshutdown | ⟨v, hv, hreceived⟩
    · exact .inr ⟨r, hr, .inl hshutdown⟩
    · -- the client has this version
      exfalso
      rw [received_of_step hserver (not_reads_of_frame hf).1] at hreceived
      obtain ⟨later, hsent, -⟩ := hinv.wire
      rw [hreceived] at hsent
      cases hinv.head_sent hsent
      exact hv rfl
  | @serverFails server f cut hserver hf hended hwritten =>
    refine h.serverStep hserver { s.client with inbound := s.client.inbound ++ cut, closed := true }
      rfl s.up ?_
    rintro ⟨r, hr⟩
    exact .inr ⟨r, hr, .inr (.inr (writeFailed_of_fails hserver hf hr hwritten))⟩
  | serverDrops => exact ⟨h.greeted, h.ended, h.cutOff⟩

lemma ends_of_reachable (h : (link cfg PROTOCOL_VERSION debug).Reachable s) : Ends s := by
  refine h.run_induction ?_ fun s t hs hst hends => hends.step (inv_of_reachable hs) hst
  rintro _ rfl
  refine ⟨fun m hm => ?_, ?_, fun i c e hi => ?_⟩
  · cases hm
  · rintro ⟨r, hr⟩
    cases hr
  · cases hi

end Link

end ModelApi
