import ModelApi.LiteRt.Selection

/-!
# Dialogues

A client that keeps its transcript exact always finds the entry of its last request, so nothing
is replayed: each further request sends its one new message, and the cached conversation is the
transcript. A key fixes the transcript only; that what is cached under it was generated in reply
to the same turns needs all entries of the run to be of this kind.
-/

namespace ModelApi.LiteRt

/-! ### Transcripts -/

/-- Who said what. -/
def said (turns : List Turn) : List (Role × String) := turns.map fun t => (t.role, t.content)

@[simp] lemma said_append (ts us : List Turn) : said (ts ++ us) = said ts ++ said us :=
  List.map_append

@[simp] lemma said_assistant (reply : String) :
    said [.assistant reply] = [(.assistant, reply)] := rfl

/-- The messages sent to a conversation, each followed by the reply. -/
def Conversation.transcript (c : Conversation) : List (Role × String) :=
  c.history.flatMap fun exchange => [(.user, exchange.1), (.assistant, exchange.2)]

@[simp] lemma Conversation.transcript_append (c : Conversation) (msg reply : String) :
    ({ c with history := c.history ++ [(msg, reply)] } : Conversation).transcript =
      c.transcript ++ [(.user, msg), (.assistant, reply)] := by
  simp [Conversation.transcript]

/-- A transcript ends with a reply. -/
lemma Conversation.role_of_transcript {c : Conversation} {ts : List Turn} {t : Turn}
    (h : c.transcript = said (ts ++ [t])) : t.role = .assistant := by
  rcases List.eq_nil_or_concat c.history with hnil | ⟨hs, ⟨msg, reply⟩, hconcat⟩
  · have hlen := congrArg List.length h
    simp [Conversation.transcript, hnil, said] at hlen
  · have hlast := congrArg List.getLast? h
    simp [Conversation.transcript, hconcat, said] at hlast
    exact hlast.1.symm

/-! ### Dialogues -/

/-- Any number of dialogues, each with its settings. Request `k` of dialogue `d` is served by
call `number d k`. -/
structure Dialogues where
  number : ℕ → ℕ → ℕ
  session : ℕ → SessionMode
  systemPrompt : ℕ → Option String
  sampler : ℕ → SamplerParams
  number_inj : ∀ {d d' k k'}, number d k = number d' k' → d = d' ∧ k = k'
  /-- no two dialogues share a session id -/
  session_inj : ∀ {d d' id}, session d = .persistent id → session d' = .persistent id → d = d'

namespace Dialogues

variable (D : Dialogues) (cfg : Config)

/-- The request has the settings of dialogue `d`. -/
structure Has (d : ℕ) (req : InferenceRequest) : Prop where
  session : req.session = D.session d
  systemPrompt : cfg.systemPrompt req = D.systemPrompt d
  sampler : cfg.samplerForRequest req = D.sampler d

/-- Call `i` carries on its dialogue: it has one user turn, behind the turns of the request
before it and the exact reply to that, if there is one. -/
inductive Asks (s : State) : ℕ → InferenceRequest → Prop where
  | opens {d : ℕ} {req : InferenceRequest} {t : Turn} (hreq : D.Has cfg d req)
      (ht : t.role = .user) (hturns : turnsOf req = [t]) : Asks s (D.number d 0) req
  | goesOn {d k : ℕ} {req prev : InferenceRequest} {reply : String} {conv : Conversation}
      {t : Turn} (hreq : D.Has cfg d req)
      (hdone : s.calls (D.number d k) = some ⟨prev, .done (.ok reply conv)⟩)
      (ht : t.role = .user) (hturns : turnsOf req = turnsOf prev ++ [.assistant reply, t]) :
      Asks s (D.number d (k + 1)) req

/-- The entry of the request before this one, if there is one, is neither evicted nor expired. -/
def Kept (s : State) (req : InferenceRequest) : Prop :=
  1 < (turnsOf req).length →
    liveAt cfg s.shared.cache s.shared.now (cfg.prefixOf req) ((turnsOf req).length - 1) = true

/-- The slot, when only these dialogues use it and each finds its last entry. -/
def runs : Lib.Machine State where
  init s := s = State.init
  step s t := Step cfg s t ∧
    (∀ i c, s.calls i = none → t.calls i = some c → D.Asks cfg s i c.req) ∧
    ∀ i req pin, s.calls i = some ⟨req, .pinRead pin⟩ → t.calls i ≠ s.calls i → Kept cfg s req

variable {D cfg} {s t : State} {i : ℕ} {req : InferenceRequest}

/-- A call that is done stays as it is. -/
lemma done_of_step (hst : Step cfg s t) {outcome : Outcome}
    (h : s.calls i = some ⟨req, .done outcome⟩) : t.calls i = some ⟨req, .done outcome⟩ := by
  obtain ⟨pc', ht, rfl | hstep⟩ := hst.calls_before h
  · exact ht
  · cases hstep

lemma Asks.mono (h : D.Asks cfg s i req) (hst : Step cfg s t) : D.Asks cfg t i req := by
  cases h with
  | opens hreq ht hturns => exact .opens hreq ht hturns
  | goesOn hreq hdone ht hturns => exact .goesOn hreq (done_of_step hst hdone) ht hturns

/-- The last turn is the user's. -/
lemma Asks.turnsOf_eq (h : D.Asks cfg s i req) :
    ∃ us t, turnsOf req = us ++ [t] ∧ t.role = .user := by
  cases h with
  | opens hreq ht hturns => exact ⟨[], _, hturns, ht⟩
  | @goesOn d k req prev reply conv t hreq hdone ht hturns =>
    exact ⟨turnsOf prev ++ [.assistant reply], t, by rw [hturns, List.append_assoc]; rfl, ht⟩

/-- The call belongs to a dialogue. -/
lemma Asks.exists_number (h : D.Asks cfg s i req) :
    ∃ d k, i = D.number d k ∧ D.Has cfg d req := by
  cases h with
  | opens hreq => exact ⟨_, _, rfl, hreq⟩
  | goesOn hreq => exact ⟨_, _, rfl, hreq⟩

/-- All requests of a dialogue but its first follow one that was answered. -/
lemma Asks.exists_prev {d k : ℕ} (h : D.Asks cfg s (D.number d (k + 1)) req) :
    ∃ prev reply conv t, D.Has cfg d req ∧
      s.calls (D.number d k) = some ⟨prev, .done (.ok reply conv)⟩ ∧
      turnsOf req = turnsOf prev ++ [.assistant reply, t] := by
  generalize hi : D.number d (k + 1) = i at h
  cases h with
  | opens =>
    obtain ⟨-, hk⟩ := D.number_inj hi
    cases hk
  | goesOn hreq hdone ht hturns =>
    obtain ⟨rfl, hk⟩ := D.number_inj hi
    cases hk
    exact ⟨_, _, _, _, hreq, hdone, hturns⟩

/-- The prefix that a request selects is the one its predecessor was cached under. -/
lemma same_withReply {d : ℕ} {prev : InferenceRequest} {reply : String} {t : Turn}
    (hreq : D.Has cfg d req) (hprev : D.Has cfg d prev)
    (hturns : turnsOf req = turnsOf prev ++ [.assistant reply, t]) :
    ((cfg.prefixOf req).take ((turnsOf req).length - 1)).Same
      ((cfg.prefixOf prev).withReply reply) := by
  have hsampler := hreq.sampler.trans hprev.sampler.symm
  rw [cfg.samplerForRequest_eq, cfg.samplerForRequest_eq] at hsampler
  have hsys : cfg.systemPrompt req = cfg.systemPrompt prev :=
    hreq.systemPrompt.trans hprev.systemPrompt.symm
  refine ⟨congrArg (Option.getD · "") hsys, ?_, ?_, ?_⟩
  · exact congrArg SamplerParams.topP hsampler
  · exact congrArg SamplerParams.temperature hsampler
  · have hsplit : turnsOf req = turnsOf prev ++ [.assistant reply] ++ [t] := by
      rw [hturns, List.append_assoc]
      rfl
    have hlen : (turnsOf req).length - 1 = (turnsOf prev ++ [Turn.assistant reply]).length := by
      rw [hsplit, List.length_append, List.length_singleton, Nat.add_sub_cancel]
    simp only [Config.prefixOf, Prefix.take, Prefix.withReply]
    rw [hlen, hsplit, List.take_left]

end Dialogues

/-! ### The invariant -/

/-- Every entry holds, word for word, a prefix of the run that its key stands for. -/
def EntriesExact (cfg : Config) (s : State) : Prop :=
  ∀ h c, s.shared.cache.lookup h = some c →
    ∃ p ∈ keyed cfg s, cfg.key p = h ∧ c.turnCount = p.turns.length ∧
      c.conv.transcript = said p.turns ∧ p.turns ≠ []

/-- What a call of a dialogue knows. -/
def Pc.Exact (cfg : Config) (p : Prefix) : Pc → Prop
  | .pinRead pin                =>
    1 < p.turns.length → pin = none ∨ pin = some (cfg.key (p.take (p.turns.length - 1)))
  | .missed                     => p.turns.length = 1
  | .ready conv n               => n = p.turns.length - 1 ∧ conv.transcript = said (p.take n).turns
  | .sending conv rest last     =>
    (∃ t, t.role = .user ∧ rest = [t.content] ∧ said p.turns = conv.transcript ++ said [t]) ∨
      rest = [] ∧ conv.transcript = said (p.withReply last).turns
  | .generated conv last        => conv.transcript = said (p.withReply last).turns
  | .recloned conv toCache last =>
    conv.transcript = said (p.withReply last).turns ∧
      toCache.transcript = said (p.withReply last).turns
  | .inserted conv newHash last =>
    conv.transcript = said (p.withReply last).turns ∧ newHash = cfg.key (p.withReply last)
  | .unwinding (.ok _ _)        => False
  | .done (.ok reply conv)      => conv.transcript = said (p.withReply reply).turns
  | _                           => True

/-- Between two requests of a dialogue, its session is pinned to its last entry. -/
def PinsExact (cfg : Config) (D : Dialogues) (s : State) : Prop :=
  ∀ d k id req reply conv, D.session d = .persistent id →
    s.calls (D.number d k) = some ⟨req, .done (.ok reply conv)⟩ →
    (∀ c, s.calls (D.number d (k + 1)) = some c → c.pc = .entered) →
    s.shared.sessions.lookup id = some (cfg.key ((cfg.prefixOf req).withReply reply))

structure Exact (cfg : Config) (D : Dialogues) (s : State) : Prop where
  entries : EntriesExact cfg s
  calls : ∀ i c, s.calls i = some c → c.pc.Exact cfg (cfg.prefixOf c.req)
  asked : ∀ i c, s.calls i = some c → D.Asks cfg s i c.req
  pins : PinsExact cfg D s

namespace Exact

variable {cfg : Config} {D : Dialogues} {s t : State} {i : ℕ} {req : InferenceRequest}

/-- What is cached under the key of a prefix of a request of the run. -/
lemma of_lookup (h : EntriesExact cfg s) (hcol : NoCollision cfg s) {pc : Pc} {n : ℕ}
    (hi : s.calls i = some ⟨req, pc⟩) {e : CachedConv}
    (he : s.shared.cache.lookup (cfg.key ((cfg.prefixOf req).take n)) = some e) :
    e.turnCount = ((turnsOf req).take n).length ∧
      e.conv.transcript = said ((turnsOf req).take n) ∧ (turnsOf req).take n ≠ [] := by
  obtain ⟨p, hp, hkey, hcount, htranscript, hne⟩ := h _ e he
  have hsame : p.Same ((cfg.prefixOf req).take n) := hcol p hp _ ⟨i, _, hi, .inl ⟨n, rfl⟩⟩ hkey
  have hturns : p.turns = (turnsOf req).take n := hsame.2.2.2
  rw [hturns] at hcount htranscript hne
  exact ⟨hcount, htranscript, hne⟩

lemma exists_entry {p : Prefix} {n : ℕ}
    (hlive : liveAt cfg s.shared.cache s.shared.now p n = true) :
    ∃ e, s.shared.cache.lookup (cfg.key (p.take n)) = some e ∧ live cfg s.shared.now e = true := by
  rw [liveAt] at hlive
  split at hlive
  · cases hlive
  · next e he => exact ⟨e, he, hlive⟩

/-- A prefix that ends with the user's turn is not cached. -/
lemma not_liveAt (h : EntriesExact cfg s) (hcol : NoCollision cfg s) {pc : Pc} {n : ℕ}
    {us : List Turn} {u : Turn} (hi : s.calls i = some ⟨req, pc⟩)
    (htake : (turnsOf req).take n = us ++ [u]) (hu : u.role = .user) :
    liveAt cfg s.shared.cache s.shared.now (cfg.prefixOf req) n = false := by
  by_contra hlive
  rw [Bool.not_eq_false] at hlive
  obtain ⟨e, he, -⟩ := exists_entry hlive
  obtain ⟨-, htranscript, -⟩ := of_lookup h hcol hi he
  rw [htake] at htranscript
  have hrole := Conversation.role_of_transcript htranscript
  rw [hu] at hrole
  cases hrole

/-- The first request of a dialogue selects nothing. -/
lemma choosePrefix_eq_none (h : Exact cfg D s) (hcol : NoCollision cfg s) {pin : Option Key}
    (hi : s.calls i = some ⟨req, .pinRead pin⟩) (hlen : (turnsOf req).length ≤ 1) :
    choosePrefix cfg s.shared.cache s.shared.now pin (cfg.prefixOf req) = none := by
  obtain ⟨us, u, hturns, hu⟩ : ∃ us u, turnsOf req = us ++ [u] ∧ u.role = .user :=
    (h.asked i _ hi).turnsOf_eq
  obtain rfl : us = [] := by
    apply List.eq_nil_of_length_eq_zero
    rw [hturns, List.length_append, List.length_singleton] at hlen
    omega
  cases hchoose : choosePrefix cfg s.shared.cache s.shared.now pin (cfg.prefixOf req) with
  | none => rfl
  | some chosen =>
    obtain ⟨k, n⟩ := chosen
    obtain ⟨-, -, hlive⟩ := choosePrefix_eq_some hchoose
    cases n with
    | zero =>
      obtain ⟨e, he, -⟩ := exists_entry hlive
      exact absurd rfl (of_lookup h.entries hcol hi he).2.2
    | succ n =>
      have htake : (turnsOf req).take (n + 1) = [] ++ [u] := by simp [hturns]
      have hdead := not_liveAt h.entries hcol hi htake hu
      rw [hdead] at hlive
      cases hlive

/-- Every further request selects all of its turns but the last. -/
lemma choosePrefix_eq (h : Exact cfg D s) (hcol : NoCollision cfg s) {pin : Option Key}
    (hi : s.calls i = some ⟨req, .pinRead pin⟩) (hlen : 1 < (turnsOf req).length)
    (hkept : Dialogues.Kept cfg s req) :
    choosePrefix cfg s.shared.cache s.shared.now pin (cfg.prefixOf req) =
      some (cfg.key ((cfg.prefixOf req).take ((turnsOf req).length - 1)),
        (turnsOf req).length - 1) := by
  have hlive := hkept hlen
  obtain ⟨us, u, hturns, hu⟩ : ∃ us u, turnsOf req = us ++ [u] ∧ u.role = .user :=
    (h.asked i _ hi).turnsOf_eq
  obtain hpin | hpin := h.calls i _ hi hlen
  · -- without a pin the scan first tries the whole request, which ends with the user's turn
    have hwhole : liveAt cfg s.shared.cache s.shared.now (cfg.prefixOf req) (turnsOf req).length =
        false := by
      have htake : (turnsOf req).take (turnsOf req).length = us ++ [u] := by
        rw [List.take_length, hturns]
      exact not_liveAt h.entries hcol hi htake hu
    obtain ⟨m, hm⟩ := Nat.exists_eq_add_of_lt hlen
    have hm' : (turnsOf req).length = m + 1 + 1 := by omega
    rw [hm', Nat.add_sub_cancel] at hlive ⊢
    rw [hm'] at hwhole
    have hcount : (cfg.prefixOf req).turns.length = m + 1 + 1 := hm'
    rw [hpin, choosePrefix, pinnedPrefix, hcount]
    simp only [scanPrefix, hwhole, hlive, if_true, Bool.false_eq_true, if_false]
  · obtain ⟨e, he, hfresh⟩ := exists_entry hlive
    obtain ⟨hcount, -, -⟩ := of_lookup h.entries hcol hi he
    have hcount' : e.turnCount = (turnsOf req).length - 1 := by
      rw [hcount, List.length_take]
      omega
    have husable : PinUsable cfg s.shared.cache s.shared.now (cfg.prefixOf req)
        (cfg.key ((cfg.prefixOf req).take ((turnsOf req).length - 1))) e :=
      ⟨he, hfresh, hcount'.trans_le (Nat.sub_le _ _), by rw [hcount']⟩
    change pin = some (cfg.key ((cfg.prefixOf req).take ((turnsOf req).length - 1))) at hpin
    rw [hpin, choosePrefix, husable.pinnedPrefix_eq, hcount']

/-- The pin that a call reads is that of the request before it. -/
lemma sessionPin_eq (h : Exact cfg D s) (hi : s.calls i = some ⟨req, .entered⟩)
    (hlen : 1 < (turnsOf req).length) :
    sessionPin s.shared.sessions req.session = none ∨
      sessionPin s.shared.sessions req.session =
        some (cfg.key ((cfg.prefixOf req).take ((turnsOf req).length - 1))) := by
  have hasks : D.Asks cfg s i req := h.asked i _ hi
  obtain ⟨d, k, rfl, hreq⟩ := hasks.exists_number
  rw [hreq.session]
  cases hsession : D.session d with
  | stateless => exact .inl rfl
  | persistent id =>
    refine .inr ?_
    cases k with
    | zero =>
      generalize hzero : D.number d 0 = j at hasks
      cases hasks with
      | opens _ _ hturns =>
        rw [hturns] at hlen
        exact absurd hlen (lt_irrefl 1)
      | goesOn =>
        obtain ⟨-, hk⟩ := D.number_inj hzero
        cases hk
    | succ k =>
      obtain ⟨prev, reply, conv, t, -, hdone, hturns⟩ := hasks.exists_prev
      obtain ⟨d', k', hnumber, hprev⟩ := (h.asked _ _ hdone).exists_number
      obtain ⟨rfl, rfl⟩ := D.number_inj hnumber
      have hpin := h.pins d k id prev reply conv hsession hdone (fun c hc => by
        rw [hi] at hc
        cases hc
        rfl)
      rw [sessionPin, hpin, (Dialogues.same_withReply hreq hprev hturns).key_eq cfg]

/-- One step of a call. -/
lemma pc_step (h : Exact cfg D s) (hcol : NoCollision cfg s) {pc pc' : Pc} {sh' : Shared}
    (hi : s.calls i = some ⟨req, pc⟩) (hkept : ∀ pin, pc = .pinRead pin → Dialogues.Kept cfg s req)
    (hstep : CallStep cfg i req s.shared pc sh' pc') : pc'.Exact cfg (cfg.prefixOf req) := by
  have hpc : pc.Exact cfg (cfg.prefixOf req) := h.calls i _ hi
  obtain ⟨us, u, hturns, hu⟩ : ∃ us u, turnsOf req = us ++ [u] ∧ u.role = .user :=
    (h.asked i _ hi).turnsOf_eq
  have hpos : 0 < (turnsOf req).length := by simp [hturns]
  cases hstep with
  | readPin => exact h.sessionPin_eq hi
  | hit hsel hn hget =>
    by_cases hlen : 1 < (turnsOf req).length
    · rw [h.choosePrefix_eq hcol hi hlen (hkept _ rfl)] at hsel
      cases hsel
      exact ⟨rfl, (of_lookup h.entries hcol hi hget).2.1⟩
    · rw [h.choosePrefix_eq_none hcol hi (not_lt.mp hlen)] at hsel
      cases hsel
  | miss hsel =>
    by_cases hlen : 1 < (turnsOf req).length
    · have hzero := hsel _ _ (h.choosePrefix_eq hcol hi hlen (hkept _ rfl))
      omega
    · exact le_antisymm (not_lt.mp hlen) hpos
  | create => exact ⟨by rw [show (cfg.prefixOf req).turns.length = 1 from hpc], rfl⟩
  | @arm conv n hne =>
    obtain ⟨rfl, htranscript⟩ := hpc
    have hlen : (cfg.prefixOf req).turns.length - 1 = us.length := by
      simp [Config.prefixOf, hturns]
    rw [hlen] at htranscript ⊢
    have htake : ((cfg.prefixOf req).take us.length).turns = us := by
      simp [Config.prefixOf, Prefix.take, hturns]
    have hdrop : (turnsOf req).drop us.length = [u] := by rw [hturns, List.drop_left]
    rw [htake] at htranscript
    refine .inl ⟨u, hu, ?_, ?_⟩
    · simp [hdrop, sendableContents, hu]
    · rw [htranscript, ← said_append, ← hturns]
      rfl
  | @send conv msg rest last reply =>
    obtain ⟨v, hv, hrest, hsaid⟩ | ⟨hnil, -⟩ := hpc
    · obtain ⟨rfl, rfl⟩ := List.cons.inj hrest
      refine .inr ⟨rfl, ?_⟩
      rw [if_pos rfl, Conversation.transcript_append, Prefix.withReply, said_append, hsaid]
      simp [said, hv, Turn.assistant]
    · cases hnil
  | @unwind outcome =>
    cases outcome with
    | ok => exact hpc.elim
    | err => trivial
    | panicked => trivial
  | disarm =>
    obtain ⟨v, -, hnil, -⟩ | ⟨-, htranscript⟩ := hpc
    · cases hnil
    · exact htranscript
  | reclone => exact ⟨hpc, hpc⟩
  | insert => exact ⟨hpc.1, rfl⟩
  | writePin => exact hpc.1
  | noPin => exact hpc.1
  | _ => trivial

lemma entries_step (h : Exact cfg D s) (hst : Step cfg s t) : EntriesExact cfg t := by
  intro k c hc
  refine hst.entries (Q := fun p conv => conv.transcript = said p.turns ∧ p.turns ≠ []) h.entries
    ?_ hc
  intro i req conv new last hi
  have hpc : Pc.Exact cfg (cfg.prefixOf req) (.recloned conv new last) := h.calls i _ hi
  exact ⟨hpc.2, by simp [Prefix.withReply]⟩

/-- All requests of a dialogue before one that has arrived were answered. -/
lemma answered (h : Exact cfg D s) {d k m : ℕ} {c : Call}
    (hc : s.calls (D.number d (k + m + 1)) = some c) :
    ∃ req reply conv, s.calls (D.number d k) = some ⟨req, .done (.ok reply conv)⟩ := by
  induction m generalizing c with
  | zero =>
    obtain ⟨prev, reply, conv, -, -, hdone, -⟩ := (h.asked _ _ hc).exists_prev
    exact ⟨prev, reply, conv, hdone⟩
  | succ m ih =>
    obtain ⟨prev, reply, conv, -, -, hdone, -⟩ := (h.asked _ _ hc).exists_prev
    exact ih hdone

/-- A call writes its own session only, and before it is done. -/
lemma sessions_step {i : ℕ} {sh sh' : Shared} {pc pc' : Pc}
    (hstep : CallStep cfg i req sh pc sh' pc') :
    sh'.sessions = sh.sessions ∨ ∃ id conv newHash last, req.session = .persistent id ∧
      pc = .inserted conv newHash last ∧ sh'.sessions = sh.sessions.insert id newHash := by
  cases hstep with
  | writePin h => exact .inr ⟨_, _, _, _, h, rfl, rfl⟩
  | _ => exact .inl rfl

/-- While a dialogue waits for its next request, no call writes its pin. -/
lemma pin_kept (h : Exact cfg D s) (hst : Step cfg s t) {d k : ℕ} {id : String} {outcome : Outcome}
    (hsession : D.session d = .persistent id)
    (hdone : s.calls (D.number d k) = some ⟨req, .done outcome⟩)
    (hnext : ∀ c, s.calls (D.number d (k + 1)) = some c → c.pc = .entered) :
    t.shared.sessions.lookup id = s.shared.sessions.lookup id := by
  obtain ⟨_, hd⟩ | ⟨i, req', pc, pc', hi, -, hstep⟩ := hst.shared
  · rw [hd]
  · obtain hsame | ⟨id', conv, newHash, last, hid', rfl, hwrite⟩ := sessions_step hstep
    · rw [hsame]
    · rw [hwrite]
      apply AList.lookup_insert_ne
      rintro rfl
      obtain ⟨d', k', rfl, hreq'⟩ := (h.asked i _ hi).exists_number
      obtain rfl := D.session_inj hsession (hreq'.session.symm.trans hid')
      obtain hlt | rfl | hgt := lt_trichotomy k' k
      · obtain ⟨m, rfl⟩ := Nat.exists_eq_add_of_lt hlt
        obtain ⟨_, _, _, hanswered⟩ := h.answered hdone
        rw [hi] at hanswered
        cases hanswered
      · rw [hi] at hdone
        cases hdone
      · obtain rfl | hgt := (Nat.succ_le_of_lt hgt).eq_or_lt
        · cases hnext _ hi
        · obtain ⟨m, rfl⟩ := Nat.exists_eq_add_of_lt hgt
          obtain ⟨_, _, _, hanswered⟩ := h.answered hi
          cases hnext _ hanswered

lemma pins_step (h : Exact cfg D s) (hst : Step cfg s t) : PinsExact cfg D t := by
  intro d k id req reply conv hsession hdone hnext
  have hwaits : ∀ c, s.calls (D.number d (k + 1)) = some c → c.pc = .entered := by
    intro c hc
    obtain ⟨pc', hc', rfl | hstep⟩ := hst.calls_before hc
    · exact hnext _ hc'
    · obtain rfl : pc' = .entered := hnext _ hc'
      exact absurd hstep not_callStep_entered
  obtain hold | hpc | ⟨pc, hbefore, hstep⟩ := hst.calls_after hdone
  · rw [h.pin_kept hst hsession hold hwaits]
    exact h.pins d k id req reply conv hsession hold hwaits
  · cases hpc
  · have hpc : pc.Exact cfg (cfg.prefixOf req) := h.calls _ _ hbefore
    obtain ⟨d', k', hnumber, hreq⟩ := (h.asked _ _ hbefore).exists_number
    obtain ⟨rfl, rfl⟩ := D.number_inj hnumber
    generalize hsh : t.shared = sh' at hstep
    cases hstep with
    | unwind => exact hpc.elim
    | writePin hid =>
      have hid' := hid.symm.trans (hreq.session.trans hsession)
      cases hid'
      rw [hpc.2]
      exact AList.lookup_insert _
    | noPin hstateless =>
      have hid := hstateless.symm.trans (hreq.session.trans hsession)
      cases hid

lemma step (h : Exact cfg D s) (hcol : NoCollision cfg s) (hst : (D.runs cfg).step s t) :
    Exact cfg D t where
  entries := h.entries_step hst.1
  calls := by
    intro i c hc
    obtain hold | hpc | ⟨pc, hbefore, hstep⟩ := hst.1.calls_after hc
    · exact h.calls i c hold
    · rw [hpc]
      trivial
    · refine h.pc_step hcol hbefore (fun pin hpin => ?_) hstep
      subst hpin
      exact hst.2.2 i c.req pin hbefore (hstep.calls_ne hbefore hc)
  asked := by
    intro i c hc
    cases hs : s.calls i with
    | none => exact (hst.2.1 i c hs hc).mono hst.1
    | some c₀ =>
      obtain ⟨pc', hc', -⟩ := hst.1.calls_before hs
      rw [hc] at hc'
      cases hc'
      exact (h.asked i c₀ hs).mono hst.1
  pins := h.pins_step hst.1

lemma init : Exact cfg D State.init where
  entries _ _ h := by cases h
  calls _ _ h := by cases h
  asked _ _ h := by cases h
  pins _ _ _ _ _ _ _ h := by cases h

end Exact

section Runs

variable {cfg : Config} {D : Dialogues} {s : State}

lemma exact_of_reachable (hs : (D.runs cfg).Reachable s) (hcol : NoCollision cfg s) :
    Exact cfg D s := by
  refine hs.invariant_of_hereditary (P := Exact cfg D)
    (fun _ _ (hst : (D.runs cfg).step _ _) ht => hst.1.noCollision ht) ?_
    (fun _ _ (hst : (D.runs cfg).step _ _) ht h => h.step (hst.1.noCollision ht) hst) hcol
  rintro _ rfl
  exact .init

/-- In every run of any number of interleaved dialogues, whose keys do not collide: a request with
a predecessor selects all of its turns but the last; every request sends exactly one message; the
conversation that it caches is the client's transcript with the new reply; and every cached
conversation is the transcript its key stands for. -/
theorem dialogues_exact (D : Dialogues) (hs : (D.runs cfg).Reachable s)
    (hcol : NoCollision cfg s) :
    (∀ d k req pin, s.calls (D.number d (k + 1)) = some ⟨req, .pinRead pin⟩ →
      Dialogues.Kept cfg s req →
        choosePrefix cfg s.shared.cache s.shared.now pin (cfg.prefixOf req) =
          some (cfg.key ((cfg.prefixOf req).take ((turnsOf req).length - 1)),
            (turnsOf req).length - 1)) ∧
    (∀ i req conv n, s.calls i = some ⟨req, .ready conv n⟩ →
      n = (turnsOf req).length - 1 ∧ ∃ msg, sendableContents ((turnsOf req).drop n) = [msg]) ∧
    (∀ i req conv toCache reply, s.calls i = some ⟨req, .recloned conv toCache reply⟩ →
      toCache.transcript = said (turnsOf req ++ [.assistant reply])) ∧
    ∀ h c, s.shared.cache.lookup h = some c →
      ∃ p ∈ keyed cfg s, cfg.key p = h ∧ c.conv.transcript = said p.turns := by
  have hexact := exact_of_reachable hs hcol
  refine ⟨?_, ?_, ?_, ?_⟩
  · intro d k req pin hi hkept
    obtain ⟨prev, reply, conv, t, -, -, hturns⟩ := (hexact.asked _ _ hi).exists_prev
    have hlen : 1 < (turnsOf req).length := by
      rw [hturns, List.length_append, List.length_cons, List.length_singleton]
      omega
    exact hexact.choosePrefix_eq hcol hi hlen hkept
  · intro i req conv n hi
    have hn : n = (turnsOf req).length - 1 := (hexact.calls i _ hi).1
    obtain ⟨us, u, hturns, hu⟩ : ∃ us u, turnsOf req = us ++ [u] ∧ u.role = .user :=
      (hexact.asked i _ hi).turnsOf_eq
    refine ⟨hn, u.content, ?_⟩
    simp [hn, hturns, sendableContents, hu]
  · intro i req conv toCache reply hi
    exact (hexact.calls i _ hi).2
  · intro h c hc
    obtain ⟨p, hp, hkey, -, htranscript, -⟩ := hexact.entries h c hc
    exact ⟨p, hp, hkey, htranscript⟩

/-! ### A concrete run -/

variable {others : ℕ → Option Call} {i : ℕ} {req : InferenceRequest} {sh : Shared}

lemma runs_arrive (hfree : others i = none) (hasks : D.Asks cfg ⟨sh, others⟩ i req) :
    (D.runs cfg).step ⟨sh, others⟩ (callAt others i req sh .entered) := by
  refine ⟨.arrive _ i req hfree, fun j c hj hc => ?_, fun j req' pin hj hmoved => ?_⟩
  · by_cases hji : j = i
    · subst hji
      rw [callAt_self] at hc
      cases hc
      exact hasks
    · rw [callAt_of_ne hji] at hc
      exact absurd (hj.symm.trans hc) nofun
  · have hji : j ≠ i := by
      rintro rfl
      exact absurd (hfree.symm.trans hj) nofun
    exact absurd (callAt_of_ne hji) hmoved

lemma runs_takes (hkept : Dialogues.Kept cfg ⟨sh, others⟩ req) :
    Takes (D.runs cfg) cfg others i req sh := by
  intro sh₁ sh₂ pc pc' hpin hstep
  refine ⟨step_callAt hstep, fun j c hj hc => ?_, fun j req' pin hj hmoved => ?_⟩
  · by_cases hji : j = i
    · subst hji
      rw [callAt_self] at hj
      cases hj
    · rw [callAt_of_ne hji] at hj hc
      exact absurd (hj.symm.trans hc) nofun
  · by_cases hji : j = i
    · subst hji
      rw [callAt_self] at hj
      cases hj
      rw [hpin pin rfl]
      exact hkept
    · rw [callAt_of_ne hji, callAt_of_ne hji] at hmoved
      exact absurd rfl hmoved

/-- Two dialogues, one of them with a session, that begin with the same words. -/
def demoDialogues : Dialogues where
  number := Nat.pair
  session d := if d = 0 then .persistent "A" else .stateless
  systemPrompt _ := none
  sampler _ := ⟨DEFAULT_TOP_P, DEFAULT_TEMPERATURE⟩
  number_inj h := Nat.pair_eq_pair.mp h
  session_inj {d d' id} h h' := by
    split at h
    · split at h'
      · next hd hd' => rw [hd, hd']
      · cases h'
    · cases h

/-- The first request of a dialogue. -/
def openingRequest (session : SessionMode) : InferenceRequest := .plain session [.user "hi"]

/-- The second request of the dialogue with a session. -/
def furtherRequest : InferenceRequest :=
  .plain (.persistent "A") [.user "hi", .assistant "a1", .user "more"]

/-- The session has been opened. -/
def demoOpened (sh : Shared) (outcome : Outcome) : State :=
  callAt State.init.calls 0 (openingRequest (.persistent "A")) sh (.done outcome)

/-- Both dialogues have been opened. -/
def demoBoth (sh₁ sh₂ : Shared) (outcome₁ outcome₂ : Outcome) : State :=
  callAt (demoOpened sh₁ outcome₁).calls 2 (openingRequest .stateless) sh₂ (.done outcome₂)

/-- Both dialogues have been opened, and the first goes on. -/
def demoFurther (sh₁ sh₂ : Shared) (outcome₁ outcome₂ : Outcome) : State :=
  callAt (demoBoth sh₁ sh₂ outcome₁ outcome₂).calls 1 furtherRequest sh₂
    (.pinRead (sessionPin sh₂.sessions furtherRequest.session))

lemma has_demoDialogues (d : ℕ) (turns : List Turn) :
    demoDialogues.Has demoConfig d (.plain (demoDialogues.session d) turns) :=
  ⟨rfl, rfl, rfl⟩

/-- The second request of a dialogue, behind another dialogue that shares its first entry. -/
theorem dialogues_exact_demo : ∃ s pin, (demoDialogues.runs demoConfig).Reachable s ∧
    s.calls (demoDialogues.number 0 1) = some ⟨furtherRequest, .pinRead pin⟩ ∧
    choosePrefix demoConfig s.shared.cache s.shared.now pin (demoConfig.prefixOf furtherRequest) =
      some (demoConfig.key ((demoConfig.prefixOf furtherRequest).take 2), 2) := by
  have hrun : ∃ x, demoConfig.serve demoModel State.init.shared
        (openingRequest (.persistent "A")) = some x ∧ x.2.1 = "a1" ∧
      ∃ y, demoConfig.serve demoModel x.1 (openingRequest .stateless) = some y ∧
        liveAt demoConfig y.1.cache y.1.now (demoConfig.prefixOf furtherRequest) 2 = true ∧
        (let s := demoFurther x.1 y.1 (.ok x.2.1 x.2.2) (.ok y.2.1 y.2.2)
         ∀ p ∈ s.keyedList demoConfig 3, ∀ q ∈ s.keyedList demoConfig 3,
          demoConfig.key p = demoConfig.key q → p.Same q) := by
    decide +kernel
  obtain ⟨⟨sh₁, reply₁, conv₁⟩, hserve₁, rfl, ⟨sh₂, reply₂, conv₂⟩, hserve₂, hlive, hlist⟩ := hrun
  have hfirst : ∀ {s session}, Dialogues.Kept demoConfig s (openingRequest session) :=
    fun h => absurd h (lt_irrefl 1)
  have hask₁ : demoDialogues.Asks demoConfig State.init 0 (openingRequest (.persistent "A")) :=
    .opens (d := 0) (has_demoDialogues 0 _) rfl rfl
  have hopened := steps_serve (runs_takes hfirst) (runs_arrive rfl hask₁) hserve₁
  have hask₂ : demoDialogues.Asks demoConfig (demoOpened sh₁ (.ok "a1" conv₁)) 2
      (openingRequest .stateless) :=
    .opens (d := 1) (has_demoDialogues 1 _) rfl rfl
  have hboth := steps_serve (runs_takes hfirst) (runs_arrive rfl hask₂) hserve₂
  have hask₃ : demoDialogues.Asks demoConfig
      (demoBoth sh₁ sh₂ (.ok "a1" conv₁) (.ok reply₂ conv₂)) 1 furtherRequest :=
    .goesOn (d := 0) (k := 0) (has_demoDialogues 0 _) rfl rfl rfl
  have htakes : Takes (demoDialogues.runs demoConfig) demoConfig
      (demoBoth sh₁ sh₂ (.ok "a1" conv₁) (.ok reply₂ conv₂)).calls 1 furtherRequest sh₂ :=
    runs_takes (fun _ => hlive)
  have hreach : (demoDialogues.runs demoConfig).Reachable
      (demoFurther sh₁ sh₂ (.ok "a1" conv₁) (.ok reply₂ conv₂)) := by
    have hstart : (demoDialogues.runs demoConfig).Reachable State.init := .of_init rfl
    refine Lib.Machine.Reachable.step (((hstart.steps hopened).steps hboth).step
      (runs_arrive rfl hask₃)) ?_
    exact htakes.step (.readPin rfl (List.cons_ne_nil _ _)) nofun
  have hfree : ∀ i, 3 ≤ i →
      (demoFurther sh₁ sh₂ (.ok "a1" conv₁) (.ok reply₂ conv₂)).calls i = none := by
    intro i hi
    exact (callAt_of_ne (by omega)).trans
      ((callAt_of_ne (by omega)).trans (callAt_of_ne (by omega)))
  have hcol := noCollision_of_keyedList hfree hlist
  have hexact := (dialogues_exact demoDialogues hreach hcol).1
  exact ⟨_, _, hreach, callAt_self, hexact 0 0 furtherRequest _ callAt_self (fun _ => hlive)⟩

end Runs

end ModelApi.LiteRt
