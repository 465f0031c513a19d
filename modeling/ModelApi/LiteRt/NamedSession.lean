import ModelApi.LiteRt.Serve

/-!
# Named sessions with text input

A request with a text is one user turn. Whatever the session is pinned to, that turn alone is
looked up, so no such request finds the conversation that its session has had so far.
-/

namespace ModelApi.LiteRt

/-- A session on which texts are sent. Its `k`-th request (from 0) is served by call `number k`. -/
structure NamedSession where
  sessionId : String
  number : ℕ → ℕ
  message : ℕ → String
  systemPrompt : Option String
  sampler : SamplerParams
  number_inj : Function.Injective number

namespace NamedSession

variable (S : NamedSession) (cfg : Config)

/-- The `k`-th request of the session. -/
structure Has (k : ℕ) (req : InferenceRequest) : Prop where
  input : req.input = .text (S.message k)
  systemPrompt : cfg.systemPrompt req = S.systemPrompt
  sampler : cfg.samplerForRequest req = S.sampler

/-- The call has returned a reply. -/
def Answered (s : State) (i : ℕ) : Prop :=
  ∃ req reply conv, s.calls i = some ⟨req, .done (.ok reply conv)⟩

/-- A request on the session is its next one, behind others that were answered; requests on other
sessions, or on none, are arbitrary. -/
structure Asks (s : State) (i : ℕ) (req : InferenceRequest) : Prop where
  session : req.session = .persistent S.sessionId ↔ ∃ k, i = S.number k
  has : ∀ k, i = S.number k → S.Has cfg k req
  answered : ∀ k, i = S.number k → ∀ j < k, Answered s (S.number j)

/-- The entry that the session is pinned to, if it is, is neither evicted nor expired. -/
def entryLive (sh : Shared) : Bool :=
  (sh.sessions.lookup S.sessionId).all fun h => (sh.cache.lookup h).any (live cfg sh.now)

/-- The slot, with this session among the others. -/
def runs : Lib.Machine State where
  init s := s = State.init
  step s t := Step cfg s t ∧
    (∀ i c, s.calls i = none → t.calls i = some c → S.Asks cfg s i c.req) ∧
    ∀ k req pin, s.calls (S.number k) = some ⟨req, .pinRead pin⟩ →
      t.calls (S.number k) ≠ s.calls (S.number k) → S.entryLive cfg s.shared = true

end NamedSession

/-! ### What a call with a text sends -/

/-- The conversation was sent this message and no other. -/
def Outcome.Alone (msg : String) : Outcome → Prop
  | .ok _ conv => conv.sent = [msg]
  | _          => True

/-- What a call with the text `msg` knows. -/
def Pc.Alone (msg : String) : Pc → Prop
  | .ready conv n       => n = 0 → conv.sent = []
  | .sending conv rest _ => conv.sent ++ rest = [msg]
  | .unwinding outcome  => outcome.Alone msg
  | .generated conv _   => conv.sent = [msg]
  | .recloned conv _ _  => conv.sent = [msg]
  | .inserted conv _ _  => conv.sent = [msg]
  | .done outcome       => outcome.Alone msg
  | _                   => True

section Alone

variable {cfg : Config} {s t : State} {i : ℕ} {req : InferenceRequest} {msg : String}

lemma turnsOf_text (h : req.input = .text msg) : turnsOf req = [.user msg] := by
  rw [turnsOf, h]
  rfl

/-- Behind the one turn there is nothing to send. -/
lemma sendableContents_drop_text (h : req.input = .text msg) (n : ℕ) :
    sendableContents ((turnsOf req).drop n) = if n = 0 then [msg] else [] := by
  rw [turnsOf_text h]
  cases n with
  | zero => rfl
  | succ n => rw [List.drop_succ_cons, List.drop_nil]; rfl

lemma CallStep.alone {sh sh' : Shared} {pc pc' : Pc} (hstep : CallStep cfg i req sh pc sh' pc')
    (hinput : req.input = .text msg) (hpc : pc.Alone msg) : pc'.Alone msg := by
  cases hstep with
  | hit _ hn => exact fun h => absurd h hn.ne'
  | create => exact fun _ => rfl
  | @arm conv n hne =>
    rw [sendableContents_drop_text hinput] at hne ⊢
    split at hne
    · next hn =>
      have hsent : conv.sent = [] := hpc hn
      rw [Pc.Alone, if_pos hn, hsent, List.nil_append]
    · exact absurd rfl hne
  | send reply =>
    rw [Pc.Alone, Conversation.sent_append, List.append_assoc]
    exact hpc
  | unwind => exact hpc
  | disarm =>
    rw [Pc.Alone, List.append_nil] at hpc
    exact hpc
  | reclone => exact hpc
  | insert => exact hpc
  | writePin => exact hpc
  | noPin => exact hpc
  | _ => trivial

/-- Every call with a text sends that text to a new conversation. -/
lemma Step.alone (hst : Step cfg s t)
    (hs : ∀ i c msg, s.calls i = some c → c.req.input = .text msg → c.pc.Alone msg) :
    ∀ i c msg, t.calls i = some c → c.req.input = .text msg → c.pc.Alone msg := by
  intro i c msg hi hinput
  obtain hold | hpc | ⟨pc, hi', hstep⟩ := hst.calls_after hi
  · exact hs i c msg hold hinput
  · rw [hpc]
    trivial
  · exact hstep.alone hinput (hs i _ msg hi' hinput)

end Alone

/-! ### The session -/

namespace NamedSession

variable {S : NamedSession} {cfg : Config} {s t : State}

/-- The calls of the session carry its messages. -/
lemma has_step (hst : (S.runs cfg).step s t)
    (hs : ∀ k c, s.calls (S.number k) = some c → S.Has cfg k c.req) :
    ∀ k c, t.calls (S.number k) = some c → S.Has cfg k c.req := by
  intro k c hc
  cases hbefore : s.calls (S.number k) with
  | none => exact (hst.2.1 _ c hbefore hc).has k rfl
  | some c₀ =>
    obtain ⟨pc', hc', -⟩ := hst.1.calls_before hbefore
    rw [hc] at hc'
    cases hc'
    exact hs k c₀ hbefore

/-- In every run, whatever happens on other sessions: the conversation that answers the `k`-th
request of the session was sent the messages up to that one if and only if it is the first. -/
theorem sent_texts_iff (S : NamedSession) (hs : (S.runs cfg).Reachable s) {k : ℕ}
    {req : InferenceRequest} {reply : String} {conv : Conversation}
    (hk : s.calls (S.number k) = some ⟨req, .done (.ok reply conv)⟩) :
    conv.sent = (List.range (k + 1)).map S.message ↔ k = 0 := by
  have hhas : ∀ k c, s.calls (S.number k) = some c → S.Has cfg k c.req := by
    refine hs.invariant (P := fun s => ∀ k c, s.calls (S.number k) = some c → S.Has cfg k c.req)
      ?_ (fun _ _ => has_step)
    rintro _ rfl _ _ h
    cases h
  have halone : ∀ i c msg, s.calls i = some c → c.req.input = .text msg → c.pc.Alone msg := by
    refine hs.invariant (P := fun s => ∀ i c msg, s.calls i = some c →
      c.req.input = .text msg → c.pc.Alone msg) ?_
      (fun _ _ (hst : (S.runs cfg).step _ _) => hst.1.alone)
    rintro _ rfl _ _ _ h
    cases h
  have hsent : conv.sent = [S.message k] := halone _ _ _ hk (hhas k _ hk).input
  rw [hsent]
  constructor
  · intro h
    have hlen := congrArg List.length h
    rw [List.length_map, List.length_range, List.length_singleton] at hlen
    omega
  · rintro rfl
    rfl

/-! ### Two texts on a session -/

variable {others : ℕ → Option Call} {i : ℕ} {req : InferenceRequest} {sh : Shared}

lemma runs_arrive (hfree : others i = none) (hasks : S.Asks cfg ⟨sh, others⟩ i req) :
    (S.runs cfg).step ⟨sh, others⟩ (callAt others i req sh .entered) := by
  refine ⟨.arrive _ i req hfree, fun j c hj hc => ?_, fun k req' pin hj hmoved => ?_⟩
  · by_cases hji : j = i
    · subst hji
      rw [callAt_self] at hc
      cases hc
      exact hasks
    · rw [callAt_of_ne hji] at hc
      exact absurd (hj.symm.trans hc) nofun
  · have hki : S.number k ≠ i := by
      rintro rfl
      exact absurd (hfree.symm.trans hj) nofun
    exact absurd (callAt_of_ne hki) hmoved

lemma runs_takes (hlive : S.entryLive cfg sh = true) : Takes (S.runs cfg) cfg others i req sh := by
  intro sh₁ sh₂ pc pc' hpin hstep
  refine ⟨step_callAt hstep, fun j c hj hc => ?_, fun k req' pin hj hmoved => ?_⟩
  · by_cases hji : j = i
    · subst hji
      rw [callAt_self] at hj
      cases hj
    · rw [callAt_of_ne hji] at hj hc
      exact absurd (hj.symm.trans hc) nofun
  · by_cases hki : S.number k = i
    · rw [hki, callAt_self] at hj
      cases hj
      have hsh : sh₁ = sh := hpin pin rfl
      rwa [← hsh] at hlive
    · rw [callAt_of_ne hki, callAt_of_ne hki] at hmoved
      exact absurd rfl hmoved

/-- Two questions, the second about the first. -/
def demoSession : NamedSession where
  sessionId := "A"
  number k := k
  message k := if k = 0 then "hi" else "more"
  systemPrompt := none
  sampler := ⟨DEFAULT_TOP_P, DEFAULT_TEMPERATURE⟩
  number_inj _ _ h := h

def demoText (k : ℕ) : InferenceRequest :=
  { InferenceRequest.plain (.persistent "A") [] with input := .text (demoSession.message k) }

lemma has_demoText (k : ℕ) : demoSession.Has demoConfig k (demoText k) := ⟨rfl, rfl, rfl⟩

lemma asks_demoText {k : ℕ} (hanswered : ∀ j < k, Answered s j) :
    demoSession.Asks demoConfig s k (demoText k) where
  session := ⟨fun _ => ⟨k, rfl⟩, fun _ => rfl⟩
  has j hj := by
    obtain rfl : k = j := hj
    exact has_demoText k
  answered j hj := by
    obtain rfl : k = j := hj
    exact hanswered

/-- The session after its first request. -/
def demoFirst (sh : Shared) (outcome : Outcome) : State :=
  callAt State.init.calls 0 (demoText 0) sh (.done outcome)

/-- The second request is answered by a conversation that was sent the second text only. -/
lemma exists_second : ∃ s reply conv, (demoSession.runs demoConfig).Reachable s ∧
    s.calls 1 = some ⟨demoText 1, .done (.ok reply conv)⟩ ∧ conv.sent = ["more"] := by
  have hrun : ∃ x, demoConfig.serve demoModel State.init.shared (demoText 0) = some x ∧
      demoSession.entryLive demoConfig x.1 = true ∧
      ∃ y, demoConfig.serve demoModel x.1 (demoText 1) = some y ∧ y.2.2.sent = ["more"] := by
    decide +kernel
  obtain ⟨⟨sh₁, reply₁, conv₁⟩, hserve₁, hlive, ⟨sh₂, reply₂, conv₂⟩, hserve₂, hsent⟩ := hrun
  have hfirst := steps_serve (runs_takes rfl)
    (runs_arrive rfl (asks_demoText (s := State.init) (k := 0) nofun)) hserve₁
  have hanswered : ∀ j < 1, Answered (demoFirst sh₁ (.ok reply₁ conv₁)) j := by
    intro j hj
    obtain rfl : j = 0 := Nat.lt_one_iff.mp hj
    exact ⟨_, _, _, callAt_self⟩
  have hsecond := steps_serve (runs_takes hlive)
    (runs_arrive rfl (asks_demoText hanswered)) hserve₂
  have hstart : (demoSession.runs demoConfig).Reachable State.init := .of_init rfl
  exact ⟨_, _, _, (hstart.steps hfirst).steps hsecond, callAt_self, hsent⟩

/-- The second text on a session is answered without the first one. -/
theorem not_sent_texts : ¬ ∀ (cfg : Config) (S : NamedSession) (s : State),
    (S.runs cfg).Reachable s → ∀ k req reply conv,
      s.calls (S.number k) = some ⟨req, .done (.ok reply conv)⟩ →
        conv.sent = (List.range (k + 1)).map S.message := by
  intro h
  obtain ⟨s, reply, conv, hs, hdone, hsent⟩ := exists_second
  have hboth := h demoConfig demoSession s hs 1 _ _ _ hdone
  rw [hsent] at hboth
  exact absurd hboth (by decide)

theorem sent_texts_iff_demo : ∃ s reply conv, (demoSession.runs demoConfig).Reachable s ∧
    s.calls (demoSession.number 1) = some ⟨demoText 1, .done (.ok reply conv)⟩ ∧
    (conv.sent = (List.range (1 + 1)).map demoSession.message ↔ 1 = 0) := by
  obtain ⟨s, reply, conv, hs, hdone, -⟩ := exists_second
  exact ⟨s, reply, conv, hs, hdone, sent_texts_iff demoSession hs hdone⟩

end NamedSession

end ModelApi.LiteRt
