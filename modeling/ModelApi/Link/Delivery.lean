import ModelApi.Link.Run

/-!
# From a call to the slot and back

What the invariant says to the user of a client: how `connect` ends, that the slot is called once at
most for each request, and that what a call returns is what the slot returned for its request.
-/

namespace ModelApi.Link

open Lib Client Server

variable {cfg : Server.Config} {clientVersion : UInt32} {debug : ServerMessage → String}
  {s : State}

/-! ### The handshake -/

section

variable [ToString BincodeError]

/-- How `connect` can go. -/
structure Handshake (cfg : Server.Config) (clientVersion : UInt32) (s : State) : Prop where
  /-- it succeeds with the data of the handler, where the versions agree -/
  connected : ∀ info, s.phase = .connected info → clientVersion = PROTOCOL_VERSION ∧
    info = ⟨PROTOCOL_VERSION, cfg.modelName, cfg.gpuMemoryMb⟩
  /-- the handler refuses other versions -/
  refused : ∀ message, s.phase = .failed (.server message) →
    clientVersion ≠ PROTOCOL_VERSION ∧ message = versionMismatch clientVersion
  /-- before the client can find a version of the server that is not its own -/
  not_protocolVersion : ∀ server client, s.phase ≠ .failed (.protocolVersion server client)
  /-- no other frame comes first -/
  answer : s.phase = .greeting → ∀ src src' rest msg, Client.Meets s.client src rest →
    readServerFrame src = some (.ok (some msg), src') → msg = answerTo cfg clientVersion
  /-- nothing is called behind a refusal -/
  idle : clientVersion ≠ PROTOCOL_VERSION →
    s.server.calls = [] ∧ ∀ i, s.client.calls i = none

lemma Inv.slotCalls_eq_nil (h : Inv cfg clientVersion s)
    (hsent : s.sent.filterMap inferenceOf = []) :
    s.server.calls = [] := by
  obtain ⟨later, hreceived, -⟩ := h.wire
  have hrequests := (serves_of_reachable h.server hreceived).requests
  rw [hsent, List.prefix_nil, List.map_eq_nil_iff] at hrequests
  simpa [slotCalls] using hrequests

lemma Inv.handshake (h : Inv cfg clientVersion s) : Handshake cfg clientVersion s := by
  have htalk := h.talk
  constructor
  · intro info hphase
    rw [hphase] at htalk
    exact ⟨htalk.1, htalk.2.1⟩
  · intro message hphase
    rw [hphase] at htalk
    exact htalk.2.2.1 message rfl
  · intro server client hphase
    rw [hphase] at htalk
    exact htalk.2.2.2 server client rfl
  · intro hphase src src' rest msg hmeets hread
    rw [hphase] at htalk
    obtain ⟨hsent, -, -, hcarries⟩ := htalk
    obtain ⟨msgs, hwritten, -⟩ := message_of_carries hcarries hmeets hread
    obtain ⟨later, hlater, -⟩ := h.wire
    rw [hsent] at hlater
    rcases written_of_greeting h.server hlater with hnil | hone
    · rw [hnil] at hwritten
      cases hwritten
    · rw [hone] at hwritten
      exact (List.cons.inj hwritten).1.symm
  · intro hv
    obtain ⟨⟨-, hclient⟩, hsent⟩ := h.silent hv
    exact ⟨h.slotCalls_eq_nil hsent, fun i => by rw [hclient]; rfl⟩

/-- In every run of a client and a handler, `connect` succeeds only where the versions agree, and
is refused only where they do not. -/
theorem handshake_of_reachable (h : (link cfg clientVersion debug).Reachable s) :
    Handshake cfg clientVersion s :=
  (inv_of_reachable h).handshake

omit [ToString BincodeError] in
theorem handshake_of_reachable_demo :
    ∃ s, (@link demoText demoConfig PROTOCOL_VERSION fun _ => "").Reachable s ∧
      s.phase = .connected ⟨PROTOCOL_VERSION, "demo", none⟩ ∧
      @Handshake demoText demoConfig PROTOCOL_VERSION s := by
  let _ := demoText
  obtain ⟨s, hs, hphase, -⟩ := demo_answered
  exact ⟨s, hs, hphase, handshake_of_reachable hs⟩

/-! ### The calls -/

omit [ToString BincodeError] in
/-- The slot's call for the request of call `i`. -/
def State.ServedBy (s : State) (i : ℕ) (served : SlotCall) : Prop :=
  ∃ k : ℕ, s.asked[k]? = some i ∧ (slotCalls s.server)[k]? = some served

/-- Requests and replies are neither lost, nor duplicated, nor mixed up between the client's calls
and the slot. -/
structure Delivered (s : State) : Prop where
  /-- every call of the slot is for the request of one call of the client, in the order in which
  these wrote their requests -/
  called : List.Forall₂ (fun i served => Asked s.client i served.req)
    (s.asked.take (slotCalls s.server).length) (slotCalls s.server)
  /-- and no request is passed on twice -/
  once : s.asked.Nodup
  /-- a response is the slot's response to the request of this call -/
  response : ∀ i c resp, s.client.calls i = some c → c.pc = .done (.response resp) →
    ∃ served, s.ServedBy i served ∧ c.op.message = .inference served.req ∧
      served.result = some (.ok resp)
  /-- and so is an error of the server -/
  error : ∀ i c message, s.client.calls i = some c → c.pc = .done (.error (.server message)) →
    ∃ served, s.ServedBy i served ∧ c.op.message = .inference served.req ∧
      served.result = some (.error message)
  /-- a callback receives the first of the events that found room for its request -/
  received : ∀ i c, s.client.calls i = some c → c.received ≠ [] →
    ∃ served, s.ServedBy i served ∧ c.received <+: served.accepted.map toStream
  /-- and all of them, when the call returns an answer -/
  heard : ∀ i c r, s.client.calls i = some c → c.op.isStream = true → c.pc = .done r →
    r.IsReply → ∃ served, s.ServedBy i served ∧ c.received = served.accepted.map toStream

/-- What a call returns when the slot has returned. -/
def resultOf : Except String InferenceResponse → Client.Result
  | .ok resp       => .response resp
  | .error message => .error (.server message)

omit [ToString BincodeError] in
/-- `r` is what the slot returned when it was called with the request of call `i`, which is `op`. -/
def State.Answers (s : State) (i : ℕ) (op : Client.Op) (r : Client.Result) : Prop :=
  ∃ served result, s.ServedBy i served ∧ op.message = .inference served.req ∧
    served.result = some result ∧ r = resultOf result

omit [ToString BincodeError] in
/-- A call that returns a reply returns the slot's result for its request. -/
lemma Delivered.answers (h : Delivered s) {i : ℕ} {c : Client.Call} {r : Client.Result}
    (hi : s.client.calls i = some c) (hpc : c.pc = .done r) (hr : r.IsReply) :
    s.Answers i c.op r := by
  rcases hr with ⟨resp, rfl⟩ | ⟨message, rfl⟩
  · obtain ⟨served, hserved, hmessage, hresult⟩ := h.response i c resp hi hpc
    exact ⟨served, .ok resp, hserved, hmessage, hresult, rfl⟩
  · obtain ⟨served, hserved, hmessage, hresult⟩ := h.error i c message hi hpc
    exact ⟨served, .error message, hserved, hmessage, hresult, rfl⟩

namespace Session

/-- What the client's record says about each request. -/
lemma kept (h : Session s) (hserves : Serves s.server s.sent)
    (hhead : s.sent.head? = some (.hello PROTOCOL_VERSION)) :
    (∀ i ∉ s.asked, s.client.events i = [] ∧ s.client.answers i = none) ∧
      ∀ (k i : ℕ), s.asked[k]? = some i →
        Kept s.client.record i (slotCalls s.server)[k]? := by
  obtain ⟨oob, hoob, hframes⟩ := hserves.written hhead
  have hkept := @kept_foldl _ _ _ _ (fun _ => []) (fun _ => none) h.nodup
    (fun i _ => ⟨rfl, rfl⟩) hserves.sequential hoob hframes
  rwa [← Record.start, ← h.record] at hkept

/-- The answer to a request is what the slot has returned. -/
lemma servedBy_of_answer (h : Session s) (hserves : Serves s.server s.sent)
    (hhead : s.sent.head? = some (.hello PROTOCOL_VERSION)) {i : ℕ} {c : Client.Call}
    (hi : s.client.calls i = some c) {msg : ServerMessage}
    (hanswer : s.client.answers i = some msg) :
    ∃ served result, s.ServedBy i served ∧ c.op.message = .inference served.req ∧
      served.result = some result ∧ msg = replyOf result ∧
      s.client.events i = served.accepted.map toStream := by
  obtain ⟨hnone, hkept⟩ := h.kept hserves hhead
  have hmem : i ∈ s.asked := by
    by_contra hmem
    rw [(hnone i hmem).2] at hanswer
    cases hanswer
  obtain ⟨k, hk⟩ := List.mem_iff_getElem?.mp hmem
  have hrecord := hkept k i hk
  generalize hserved : (slotCalls s.server)[k]? = found at hrecord
  cases hrecord with
  | unanswered hunanswered =>
    rw [show s.client.record.answers i = s.client.answers i from rfl, hanswer] at hunanswered
    cases hunanswered
  | @answered served result hresult hreply hevents =>
    refine ⟨served, result, ⟨k, hk, hserved⟩, ?_, hresult, ?_, hevents⟩
    · -- the request with this number is the one that the slot was called for
      obtain ⟨req, hreq, c', hi', hmessage, -⟩ := getElem?_of_forall₂ h.asked hk
      obtain rfl := Option.some.inj (hi.symm.trans hi')
      have hsame : (s.sent.filterMap inferenceOf)[k]? = some served.req := by
        obtain ⟨rest, hrest⟩ := hserves.requests
        rw [← hrest, List.getElem?_append_left, List.getElem?_map, hserved]
        · rfl
        · rw [List.length_map]
          exact (List.getElem?_eq_some_iff.mp hserved).1
      rw [hmessage, Option.some.inj (hreq.symm.trans hsame)]
    · exact Option.some.inj (hanswer.symm.trans hreply)

lemma delivered (h : Session s) (hserves : Serves s.server s.sent)
    (hhead : s.sent.head? = some (.hello PROTOCOL_VERSION)) : Delivered s := by
  constructor
  · obtain ⟨rest, hrest⟩ := hserves.requests
    have hasked := List.forall₂_take (slotCalls s.server).length h.asked
    rw [← hrest, List.take_left' (List.length_map ..)] at hasked
    exact List.forall₂_map_right_iff.mp hasked
  · exact h.nodup
  · intro i c resp hi hpc
    have hanswer := h.client.matched.response i c resp hi hpc
    obtain ⟨served, result, hserved, hmessage, hresult, hreply, -⟩ :=
      h.servedBy_of_answer hserves hhead hi hanswer
    refine ⟨served, hserved, hmessage, ?_⟩
    cases result with
    | ok resp' =>
      cases hreply
      exact hresult
    | error message => cases hreply
  · intro i c message hi hpc
    have hanswer := h.client.matched.server i c message hi hpc
    obtain ⟨served, result, hserved, hmessage, hresult, hreply, -⟩ :=
      h.servedBy_of_answer hserves hhead hi hanswer
    refine ⟨served, hserved, hmessage, ?_⟩
    cases result with
    | ok resp => cases hreply
    | error message' =>
      cases hreply
      exact hresult
  · intro i c hi hne
    have hreceived := h.client.matched.received i c hi
    obtain ⟨hnone, hkept⟩ := h.kept hserves hhead
    have hmem : i ∈ s.asked := by
      by_contra hmem
      rw [(hnone i hmem).1, List.prefix_nil] at hreceived
      exact hne hreceived
    obtain ⟨k, hk⟩ := List.mem_iff_getElem?.mp hmem
    have hrecord := hkept k i hk
    generalize hserved : (slotCalls s.server)[k]? = found at hrecord
    cases hrecord with
    | @answered served result hresult hreply hevents =>
      refine ⟨served, ⟨k, hk, hserved⟩, ?_⟩
      rw [← hevents]
      exact hreceived
    | unanswered hunanswered hevents =>
      cases found with
      | none =>
        refine absurd (List.prefix_nil.mp ?_) hne
        exact hreceived.trans hevents
      | some served =>
        refine ⟨served, ⟨k, hk, hserved⟩, List.IsPrefix.trans hreceived ?_⟩
        simp only [Option.toList_some, List.flatMap_cons, List.flatMap_nil, List.append_nil]
          at hevents
        exact hevents
  · intro i c r hi hstream hpc hr
    have hanswer : ∃ msg, s.client.answers i = some msg := by
      rcases hr with ⟨resp, rfl⟩ | ⟨message, rfl⟩
      · exact ⟨_, h.client.matched.response i c resp hi hpc⟩
      · exact ⟨_, h.client.matched.server i c message hi hpc⟩
    obtain ⟨msg, hanswer⟩ := hanswer
    obtain ⟨served, result, hserved, -, -, -, hevents⟩ :=
      h.servedBy_of_answer hserves hhead hi hanswer
    exact ⟨served, hserved, (h.heard i c r hi hstream hpc hr).trans hevents⟩

end Session

lemma Inv.delivered (h : Inv cfg clientVersion s) : Delivered s := by
  obtain ⟨later, hsent, -⟩ := h.wire
  have hserves := serves_of_reachable h.server hsent
  have htalk := h.talk
  have hidle : s.Silent → s.sent.filterMap inferenceOf = [] → Delivered s := by
    rintro ⟨hasked, hclient⟩ hnone
    have hcalls : ∀ i c, s.client.calls i ≠ some c := by
      intro i c hi
      rw [hclient] at hi
      cases hi
    have hslot : slotCalls s.server = [] := by
      rw [slotCalls, h.slotCalls_eq_nil hnone]
      rfl
    refine ⟨?_, ?_, fun i c _ hi => absurd hi (hcalls i c), fun i c _ hi => absurd hi (hcalls i c),
      fun i c hi => absurd hi (hcalls i c), fun i c _ hi => absurd hi (hcalls i c)⟩
    · rw [hslot]
      exact .nil
    · rw [hasked]
      exact List.nodup_nil
  cases hphase : s.phase with
  | start =>
    rw [hphase] at htalk
    exact hidle htalk.2.2.1 (by rw [htalk.1]; rfl)
  | greeting =>
    rw [hphase] at htalk
    exact hidle htalk.2.2.1 (by rw [htalk.1]; rfl)
  | connected info =>
    rw [hphase] at htalk
    obtain ⟨hv, -, hhead, hsession⟩ := htalk
    rw [hv] at hhead
    exact hsession.delivered hserves hhead
  | failed e =>
    rw [hphase] at htalk
    obtain ⟨hsent | hsent, hsilent, -⟩ := htalk <;> exact hidle hsilent (by rw [hsent]; rfl)

/-- In every run of a client whose calls read and write cleanly, whatever its threads do and however
the bytes are delivered, against the handler and any slot: the slot is called once at most for each
request, in the order in which the requests were written, and a call returns what the slot returned
for its own request. -/
theorem delivered_of_reachable (h : (link cfg clientVersion debug).Reachable s) : Delivered s :=
  (inv_of_reachable h).delivered

omit [ToString BincodeError] in
theorem delivered_of_reachable_demo :
    ∃ s, (@link demoText demoConfig PROTOCOL_VERSION fun _ => "").Reachable s ∧
      s.client.calls 0 = some ⟨demoOp, .done (.error (.server "no")), []⟩ ∧ Delivered s := by
  let _ := demoText
  obtain ⟨s, hs, -, hcall⟩ := demo_answered
  exact ⟨s, hs, hcall, delivered_of_reachable hs⟩

end

end ModelApi.Link
