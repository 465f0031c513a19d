import ModelApi.Link.Session

/-!
# The invariant of a client and a handler

The handler's part of every run is a run of `handleClient`, so what holds of the handler alone
holds here. The requests that it has passed to the slot are the first of those that the client has
written, and what the frames written so far say about them is what the client's record says.
-/

namespace ModelApi.Link

open Lib Client Server

variable {cfg : Server.Config} {clientVersion : UInt32} {debug : ServerMessage → String}

/-! ### Statement -/

/-- The client has not called yet. -/
def State.Silent (s : State) : Prop :=
  s.asked = [] ∧ s.client =
    { Client.State.init with inbound := s.client.inbound, closed := s.client.closed }

/-- Call `i` has written the request `req`. -/
def Asked (client : Client.State) (i : ℕ) (req : InferenceRequest) : Prop :=
  ∃ c, client.calls i = some c ∧ c.op.message = .inference req ∧
    (c.pc = .reading ∨ ∃ r, c.pc = .done r)

/-- An error of `connect` that comes from the server is the refusal of the version. -/
def Refusal (clientVersion : UInt32) (e : ClientError) : Prop :=
  (∀ message, e = .server message →
    clientVersion ≠ PROTOCOL_VERSION ∧ message = versionMismatch clientVersion) ∧
  ∀ server client, e ≠ .protocolVersion server client

section

variable [ToString BincodeError]

/-- What holds once the client is connected. -/
structure Session (s : State) : Prop where
  client : Client.Inv s.client
  heard : Heard s.client
  nodup : s.asked.Nodup
  asked : List.Forall₂ (Asked s.client) s.asked (s.sent.filterMap inferenceOf)
  greeted : s.server.written ≠ []
  record : s.client.record = s.server.written.tail.foldl Record.deliver (.start s.asked)

/-- What the client has said and heard, where `connect` is. -/
def Talk (cfg : Server.Config) (clientVersion : UInt32) (s : State) : Phase → Prop
  | .start =>
    s.sent = [] ∧ s.upClosed = false ∧ s.Silent ∧
      Carries serverNext s.client.inbound s.client.closed s.server.written
  | .greeting =>
    s.sent = [.hello clientVersion] ∧ s.upClosed = false ∧ s.Silent ∧
      Carries serverNext s.client.inbound s.client.closed s.server.written
  | .connected info =>
    clientVersion = PROTOCOL_VERSION ∧
      info = ⟨PROTOCOL_VERSION, cfg.modelName, cfg.gpuMemoryMb⟩ ∧
      s.sent.head? = some (.hello clientVersion) ∧ Session s
  | .failed e =>
    (s.sent = [] ∨ s.sent = [.hello clientVersion]) ∧ s.Silent ∧ Refusal clientVersion e

structure Inv (cfg : Server.Config) (clientVersion : UInt32) (s : State) : Prop where
  server : (handleClient cfg).Reachable s.server
  /-- the messages the client has written were read or are on their way -/
  wire : ∃ later, s.sent = s.server.received ++ later ∧
    ((∃ r, s.server.pc = .ended r) ∨ Carries clientNext s.up s.upClosed later)
  closed : s.client.closed = true → ∃ r, s.server.pc = .ended r
  talk : Talk cfg clientVersion s s.phase

end

/-! ### The handler -/

lemma not_step_of_ended {s t : Server.State} {r : Except HandlerError Unit}
    (hpc : s.pc = .ended r) : ¬ Server.Step cfg s t := by
  intro hst
  cases hst with
  | first _ h | next _ h | refuse h | refuseFails h | drain h | emit h | finish h
  | runReturns h =>
    rw [hpc] at h
    cases h
  | write hw | writeFails hw =>
    rw [hpc] at hw
    cases hw

/-- Only the two reads receive anything. -/
lemma received_of_step {s t : Server.State} (hst : Server.Step cfg s t)
    (hpc : s.pc ≠ .readHello ∧ s.pc ≠ .readNext) : t.received = s.received := by
  cases hst with
  | first _ h => exact absurd h hpc.1
  | next _ h => exact absurd h hpc.2
  | _ => rfl

lemma not_reads_of_frame {pc : Server.Pc} {f : ServerMessage} (hf : pc.frame cfg = some f) :
    (pc ≠ .readHello ∧ pc ≠ .readNext) ∧ ∀ r, pc ≠ .ended r := by
  refine ⟨⟨?_, ?_⟩, fun r => ?_⟩ <;>
    · rintro rfl
      cases hf

lemma step_read {s : Server.State} (hpc : s.pc = .readHello ∨ s.pc = .readNext)
    (r : ReadResult) : Server.Step cfg s (s.read r) := by
  rw [Server.State.read]
  split
  · next h => exact .first r h
  · next h => exact .next r (hpc.resolve_left h)

@[simp] lemma written_read (s : Server.State) (r : ReadResult) :
    (s.read r).written = s.written := by
  rw [Server.State.read]
  split <;> rfl

@[simp] lemma received_read (s : Server.State) (r : ReadResult) :
    (s.read r).received = s.received ++ r.messages := by
  rw [Server.State.read]
  split <;> rfl

/-- Without a message, the handler is at its end. -/
lemma ended_of_read {s : Server.State} (hpc : s.pc = .readHello ∨ s.pc = .readNext)
    {r : ReadResult} (hr : ∀ m, r ≠ .message m) : ∃ e, (s.read r).pc = .ended e := by
  rcases hpc with hpc | hpc <;> cases r with
  | message m => exact absurd rfl (hr m)
  | eof | error => exact ⟨_, by rw [Server.State.read, hpc]; rfl⟩

/-- The calls of the slot, in order. -/
def slotCalls (s : Server.State) : List SlotCall := s.calls.reverse

/-- What holds of every handler that has read the first of the messages `sent`. -/
structure Serves (s : Server.State) (sent : List ClientMessage) : Prop where
  /-- the slot was called for the first of the requests, once each -/
  requests : (slotCalls s).map SlotCall.req <+: sent.filterMap inferenceOf
  sequential : Sequential (slotCalls s)
  /-- behind the greeting, the first of the frames of these calls were written -/
  written : sent.head? = some (.hello PROTOCOL_VERSION) → ∃ oob : List ServerMessage,
    (∀ f ∈ oob, f.isOutOfBand = true) ∧
      s.written.tail <+: (slotCalls s).flatMap SlotCall.frames ++ oob

lemma serves_of_reachable {s : Server.State} (h : (handleClient cfg).Reachable s)
    {sent later : List ClientMessage} (hsent : sent = s.received ++ later) : Serves s sent := by
  have hcore := (Server.inv_of_reachable h).at_pc.core
  refine ⟨?_, ?_, fun hhead => ?_⟩
  · rw [slotCalls, hcore.invoked, State.processed, hsent]
    split
    · next v rest hreceived =>
      rw [hreceived]
      split_ifs
      · rw [List.cons_append, List.filterMap_cons_none rfl, List.filterMap_append]
        exact List.prefix_append _ _
      · exact List.nil_prefix
    · exact List.nil_prefix
  · intro c hc
    rw [slotCalls, List.dropLast_reverse] at hc
    exact hcore.returned c (List.mem_reverse.mp hc)
  · have hword := hcore.written_prefix
    rw [State.word] at hword
    split at hword
    · next v rest hreceived =>
      rw [hsent, hreceived] at hhead
      cases hhead
      rw [if_pos rfl] at hword
      refine ⟨if .shutdown ∈ rest then [.goodbye] else [], fun f hf => ?_, ?_⟩
      · split_ifs at hf
        · rw [List.mem_singleton.mp hf]
          rfl
        · cases hf
      · cases hwritten : s.written with
        | nil => exact List.nil_prefix
        | cons f written =>
          rw [hwritten] at hword
          exact (List.cons_prefix_cons.mp hword).2
    · refine ⟨[], by simp, ?_⟩
      rw [List.prefix_nil.mp hword]
      exact List.nil_prefix

/-! ### The session -/

lemma getElem?_of_forall₂ {α β : Type} {R : α → β → Prop} {as : List α} {bs : List β}
    (h : List.Forall₂ R as bs) {k : ℕ} {a : α} (hk : as[k]? = some a) :
    ∃ b, bs[k]? = some b ∧ R a b := by
  induction h generalizing k with
  | nil => simp at hk
  | @cons a' b as bs hab h ih =>
    cases k with
    | zero =>
      obtain rfl : a' = a := by simpa using hk
      exact ⟨b, rfl, hab⟩
    | succ k => exact ih hk

section Steps

variable [ToString BincodeError]

lemma Asked.step {client client' : Client.State} {l : Client.Label} {i : ℕ}
    {req : InferenceRequest} (h : Asked client i req) (hst : Client.Step client l client') :
    Asked client' i req := by
  obtain ⟨c, hi, hop, hpc⟩ := h
  obtain ⟨c', hi', hop', hpc'⟩ := hst.past_op hi hpc
  exact ⟨c', hi', by rw [hop', hop], hpc'⟩

namespace Session

variable {s : State}

/-- The handler has not made more calls than the client. -/
lemma length_le (h : Session s) {server : Server.State} (hserves : Serves server s.sent) :
    (slotCalls server).length ≤ s.asked.length := by
  have hle := hserves.requests.length_le
  rwa [List.length_map, ← h.asked.length_eq] at hle

/-- The handler moves on without writing. -/
lemma congr {t : State} (h : Session s) (hclient : t.client = s.client)
    (hasked : t.asked = s.asked) (hsent : t.sent = s.sent)
    (hwritten : t.server.written = s.server.written) : Session t where
  client := hclient ▸ h.client
  heard := hclient ▸ h.heard
  nodup := hasked ▸ h.nodup
  asked := by
    rw [hclient, hasked, hsent]
    exact h.asked
  greeted := hwritten ▸ h.greeted
  record := by
    rw [hclient, hasked, hwritten]
    exact h.record

/-- A step of the client that leaves the record alone. -/
lemma step (h : Session s) {l : Client.Label} {client : Client.State} (hclean : l.Clean)
    (hst : Client.Step s.client l client) (hrecord : client.record = s.client.record) :
    Session { s with client := client } where
  client := h.client.step hclean hst
  heard := h.heard.step h.client hclean hst
  nodup := h.nodup
  asked := h.asked.imp fun _ _ hasked => hasked.step hst
  greeted := h.greeted
  record := hrecord.trans h.record

/-- A call writes its frame. -/
lemma write (h : Session s) (hserves : Serves s.server s.sent)
    (hhead : s.sent.head? = some (.hello PROTOCOL_VERSION)) {i : ℕ} {c : Client.Call}
    {frame : List UInt8} (hi : s.client.calls i = some c) (hpc : c.pc = .holding)
    (henc : clientFrame c.op.message = .ok frame) (up : List UInt8) :
    Session { s with
      client := s.client.wrote i c
      up := up
      sent := s.sent ++ [c.op.message]
      asked := s.asked ++ if c.op.isInference then [i] else [] } := by
  have hst := Client.Step.wrote hi hpc henc
  have hclean : Client.Label.Clean .tau := trivial
  have hnew : i ∉ s.asked := by
    intro hmem
    obtain ⟨k, hk⟩ := List.mem_iff_getElem?.mp hmem
    obtain ⟨req, -, c', hi', -, hpc'⟩ := getElem?_of_forall₂ h.asked hk
    obtain rfl := Option.some.inj (hi.symm.trans hi')
    rw [hpc] at hpc'
    rcases hpc' with hpc' | ⟨r, hpc'⟩ <;> cases hpc'
  have hkept : List.Forall₂ (Asked (s.client.wrote i c)) s.asked (s.sent.filterMap inferenceOf) :=
    h.asked.imp fun _ _ hasked => hasked.step hst
  have hone : List.Forall₂ (Asked (s.client.wrote i c)) (if c.op.isInference then [i] else [])
      ([c.op.message].filterMap inferenceOf) := by
    obtain ⟨c', hcalls, hop', hpc'⟩ := State.wrote_calls (s := s.client) (i := i) (c := c)
    have hasked : ∀ req, c.op.message = .inference req → Asked (s.client.wrote i c) i req := by
      intro req hreq
      exact ⟨c', by rw [hcalls]; exact Function.update_self .., by rw [hop', hreq],
        hpc'.imp_right fun hpc' => ⟨_, hpc'⟩⟩
    cases hop : c.op with
    | inference req => exact .cons (hasked req (by rw [hop]; rfl)) .nil
    | inferenceStream req => exact .cons (hasked _ (by rw [hop]; rfl)) .nil
    | cancel | shutdown => exact .nil
  constructor
  · exact h.client.step hclean hst
  · exact h.heard.step h.client hclean hst
  · split_ifs
    · exact List.nodup_append.mpr ⟨h.nodup, by simp, by
        intro a ha b hb
        rw [List.mem_singleton.mp hb]
        rintro rfl
        exact hnew ha⟩
    · rw [List.append_nil]
      exact h.nodup
  · rw [List.filterMap_append]
    exact List.rel_append hkept hone
  · exact h.greeted
  · show (s.client.wrote i c).record = _
    rw [State.record_wrote]
    split_ifs with hop
    · obtain ⟨oob, hoob, hwritten⟩ := hserves.written hhead
      rw [h.record, foldl_deliver_ask (h.length_le hserves) hoob hwritten]
    · rw [h.record, List.append_nil]

/-- The handler writes a frame. -/
lemma deliver (h : Session s) {server : Server.State} (hserves : Serves server s.sent)
    (hhead : s.sent.head? = some (.hello PROTOCOL_VERSION)) (hopen : s.client.closed = false)
    {f : ServerMessage} {frame : List UInt8} (hwritten : server.written = s.server.written ++ [f])
    (henc : serverFrame f = .ok frame) :
    Session { s with client := s.client.deliver f frame, server := server } := by
  have htail : server.written.tail = s.server.written.tail ++ [f] := by
    rw [hwritten, List.tail_append_of_ne_nil h.greeted]
  obtain ⟨oob, hoob, hframes⟩ := hserves.written hhead
  rw [htail] at hframes
  have hst := Client.Step.deliver (s := s.client) hopen henc fun hf => by
    have hne := unanswered_ne_nil (h.length_le hserves) hoob hf hframes
    rwa [← h.record] at hne
  have hclean : Client.Label.Clean .tau := trivial
  constructor
  · exact h.client.step hclean hst
  · exact h.heard.step h.client hclean hst
  · exact h.nodup
  · exact h.asked.imp fun _ _ hasked => hasked.step hst
  · show server.written ≠ []
    rw [hwritten]
    exact List.append_ne_nil_of_left_ne_nil h.greeted _
  · show (s.client.deliver f frame).record = server.written.tail.foldl _ _
    rw [State.record_deliver, h.record, htail, List.foldl_append]
    rfl

end Session

end Steps

end ModelApi.Link
