import ModelApi.Lib.Transition
import ModelApi.LiteRt.PrefixKey

/-!
# The LiteRT-LM slot

`LiteRtLmSlot::run_stream` as a transition system over any number of concurrent calls. The
cache, the session map, the cancel token and the clock are shared; every critical section of a
call, and every call into the engine, is one step, so the steps of different calls interleave
in any order. Outcomes the slot does not control (whether an engine call fails, what the model
replies, which of several least recently used entries goes first) are left open.
-/

namespace ModelApi.LiteRt

/-! ### Conversations -/

/-- The sampler parameters baked into a conversation. -/
structure SamplerParams where
  topP : F32
  temperature : F32
  deriving DecidableEq, Repr

/-- An engine conversation: what it was created with, and the messages sent to it so far, each
with the reply the model generated. -/
structure Conversation where
  systemPrompt : Option String
  sampler : SamplerParams
  history : List (String × String)
  deriving DecidableEq, Repr

/-- The messages sent to a conversation, in order. -/
def Conversation.sent (c : Conversation) : List String := c.history.map Prod.fst

@[simp] lemma Conversation.sent_append (c : Conversation) (msg reply : String) :
    ({ c with history := c.history ++ [(msg, reply)] } : Conversation).sent = c.sent ++ [msg] := by
  simp [Conversation.sent]

/-- One pooled prefix. -/
structure CachedConv where
  conv : Conversation
  turnCount : ℕ
  lastUsed : ℕ
  deriving DecidableEq, Repr

abbrev Key := BitVec 64

abbrev Cache := AList fun _ : Key => CachedConv

abbrev Sessions := AList fun _ : String => Key

/-! ### Configuration -/

/-- `0.95f32`. -/
def DEFAULT_TOP_P : F32 := ⟨0x3F733333⟩

/-- `0.8f32`. -/
def DEFAULT_TEMPERATURE : F32 := ⟨0x3F4CCCCD⟩

/-- What a slot is started with, and the two third-party parts it uses: the hash function, and
the engine's default sampler, whose temperature is 0.8. -/
structure Config where
  xxh3_128 : List UInt8 → BitVec 128
  samplerDefault : SamplerParams
  samplerDefault_temperature : samplerDefault.temperature = DEFAULT_TEMPERATURE
  cacheSizeArg : ℕ
  ttl : ℕ
  defaultSystemPrompt : Option String

namespace Config

variable (cfg : Config)

def cacheSize : ℕ := max cfg.cacheSizeArg 1

def defaultSampler : SamplerParams := { cfg.samplerDefault with topP := DEFAULT_TOP_P }

def samplerForRequest (req : InferenceRequest) : SamplerParams :=
  let s := cfg.defaultSampler
  let s := match req.inferenceConfig.temperature with
    | some t => { s with temperature := t }
    | none   => s
  match req.inferenceConfig.topP with
  | some p => { s with topP := p }
  | none   => s

/-- The per-request override, else the slot-wide default. -/
def systemPrompt (req : InferenceRequest) : Option String :=
  req.inferenceConfig.systemPrompt.or cfg.defaultSystemPrompt

def key (p : Prefix) : Key :=
  hashPrefix cfg.xxh3_128 p.systemPrompt p.topP p.temperature p.turns

end Config

/-- The `(top_p, temperature)` that enter the key of a request. -/
def effectiveSamplerForHash (req : InferenceRequest) : F32 × F32 :=
  (req.inferenceConfig.topP.getD DEFAULT_TOP_P,
    req.inferenceConfig.temperature.getD DEFAULT_TEMPERATURE)

/-- The values that enter the key are those the conversation is created with. -/
lemma Config.samplerForRequest_eq (cfg : Config) (req : InferenceRequest) :
    cfg.samplerForRequest req =
      ⟨(effectiveSamplerForHash req).1, (effectiveSamplerForHash req).2⟩ := by
  simp only [samplerForRequest, effectiveSamplerForHash, defaultSampler]
  cases req.inferenceConfig.temperature <;> cases req.inferenceConfig.topP <;>
    simp [cfg.samplerDefault_temperature]

def inputToTurns : InferenceInput → Except String (List Turn)
  | .text s    => .ok [.user s]
  | .turns ts  => .ok ts
  | .pcm _ _   => .error "audio inputs not supported on litert-lm backend"
  | .mel _ _   => .error "audio inputs not supported on litert-lm backend"

/-- The contents that are sent to a conversation: those of the user and tool turns. -/
def sendableContents (turns : List Turn) : List String :=
  turns.filterMap fun t => match t.role with
    | .user | .tool        => some t.content
    | .system | .assistant => none

@[simp] lemma sendableContents_append (ts us : List Turn) :
    sendableContents (ts ++ us) = sendableContents ts ++ sendableContents us :=
  List.filterMap_append

@[simp] lemma sendableContents_assistant (reply : String) :
    sendableContents [.assistant reply] = [] := rfl

/-- The turns of a request whose input is accepted. -/
def turnsOf (req : InferenceRequest) : List Turn :=
  match inputToTurns req.input with
  | .ok turns => turns
  | .error _  => []

/-- What a request asks for: its system prompt, sampler and turns. -/
def Config.prefixOf (cfg : Config) (req : InferenceRequest) : Prefix where
  systemPrompt := cfg.systemPrompt req
  topP := (effectiveSamplerForHash req).1
  temperature := (effectiveSamplerForHash req).2
  turns := turnsOf req

namespace Prefix

def take (p : Prefix) (n : ℕ) : Prefix := { p with turns := p.turns.take n }

/-- The prefix together with the model's reply. -/
def withReply (p : Prefix) (reply : String) : Prefix :=
  { p with turns := p.turns ++ [.assistant reply] }

end Prefix

/-! ### Picking the warmest prefix -/

section Selection

variable (cfg : Config) (cache : Cache) (now : ℕ)

/-- Not older than the TTL. -/
def live (c : CachedConv) : Bool := now - c.lastUsed < cfg.ttl

/-- The entry of the session pin, if it is live, not longer than the request, and verified to
be the key of that many turns of the request. -/
def pinnedPrefix (p : Prefix) : Option Key → Option (Key × ℕ)
  | none   => none
  | some h =>
    match cache.lookup h with
    | none   => none
    | some c =>
      if live cfg now c ∧ c.turnCount ≤ p.turns.length then
        let verify := cfg.key (p.take c.turnCount)
        if verify = h then some (h, c.turnCount) else none
      else none

/-- The first `n` turns have a live entry. -/
def liveAt (p : Prefix) (n : ℕ) : Bool :=
  match cache.lookup (cfg.key (p.take n)) with
  | none   => false
  | some c => live cfg now c

/-- The longest prefix of at most `n` turns that has a live entry. -/
def scanPrefix (p : Prefix) : ℕ → Option (Key × ℕ)
  | 0     => if liveAt cfg cache now p 0 then some (cfg.key (p.take 0), 0) else none
  | n + 1 =>
    if liveAt cfg cache now p (n + 1) then some (cfg.key (p.take (n + 1)), n + 1)
    else scanPrefix p n

/-- The session pin first, then the scan. -/
def choosePrefix (pin : Option Key) (p : Prefix) : Option (Key × ℕ) :=
  match pinnedPrefix cfg cache now p pin with
  | some chosen => some chosen
  | none        => scanPrefix cfg cache now p p.turns.length

variable {cfg : Config} {cache : Cache} {now : ℕ} {p : Prefix} {n : ℕ} {h : Key}

lemma scanPrefix_eq_some {m : ℕ} (heq : scanPrefix cfg cache now p m = some (h, n)) :
    n ≤ m ∧ h = cfg.key (p.take n) ∧ liveAt cfg cache now p n := by
  induction m with
  | zero =>
    simp only [scanPrefix, Option.ite_none_right_eq_some, Option.some.injEq, Prod.mk.injEq] at heq
    obtain ⟨hlive, rfl, rfl⟩ := heq
    exact ⟨le_rfl, rfl, hlive⟩
  | succ m ih =>
    rw [scanPrefix] at heq
    split at heq
    · next hlive =>
      cases heq
      exact ⟨le_rfl, rfl, hlive⟩
    · obtain ⟨hn, hrest⟩ := ih heq
      exact ⟨hn.trans m.le_succ, hrest⟩

lemma pinnedPrefix_eq_some {pin : Option Key}
    (heq : pinnedPrefix cfg cache now p pin = some (h, n)) :
    n ≤ p.turns.length ∧ h = cfg.key (p.take n) ∧ liveAt cfg cache now p n := by
  cases pin with
  | none => cases heq
  | some k =>
    simp only [pinnedPrefix] at heq
    split at heq
    · cases heq
    · next c hc =>
      simp only [Option.ite_none_right_eq_some, Option.some.injEq, Prod.mk.injEq] at heq
      obtain ⟨⟨hlive, hlen⟩, hkey, rfl, rfl⟩ := heq
      refine ⟨hlen, hkey.symm, ?_⟩
      rw [liveAt, hkey, hc]
      exact hlive

/-- The chosen key is that of the chosen number of turns. -/
lemma choosePrefix_eq_some {pin : Option Key}
    (heq : choosePrefix cfg cache now pin p = some (h, n)) :
    n ≤ p.turns.length ∧ h = cfg.key (p.take n) ∧ liveAt cfg cache now p n := by
  rw [choosePrefix] at heq
  split at heq
  · next chosen hpin =>
    cases heq
    exact pinnedPrefix_eq_some hpin
  · exact scanPrefix_eq_some heq

end Selection

/-! ### One call -/

/-- How a call ends. A successful call records the conversation that answered it. -/
inductive Outcome where
  | ok (reply : String) (answeredBy : Conversation)
  | err (message : String)
  | panicked

/-- Where a call is, and the locals it holds there. -/
inductive Pc where
  /-- `run_stream` entered -/
  | entered
  /-- the session pin has been read -/
  | pinRead (pin : Option Key)
  /-- nothing cached; the cache lock has been released -/
  | missed
  /-- a working conversation that holds the first `prefixN` turns -/
  | ready (conv : Conversation) (prefixN : ℕ)
  /-- in the send loop, the cancel token armed; `rest` is still to be sent -/
  | sending (conv : Conversation) (rest : List String) (lastResponse : String)
  /-- leaving the send loop early; the guard has not been dropped yet -/
  | unwinding (outcome : Outcome)
  /-- the guard has been dropped after the last message -/
  | generated (conv : Conversation) (lastResponse : String)
  /-- the copy for the cache has been made -/
  | recloned (conv toCache : Conversation) (lastResponse : String)
  /-- the copy has been inserted under `newHash` -/
  | inserted (conv : Conversation) (newHash : Key) (lastResponse : String)
  | done (outcome : Outcome)

/-- What all calls share. -/
structure Shared where
  cache : Cache
  sessions : Sessions
  now : ℕ
  /-- the call whose conversation the armed handle belongs to -/
  cancelToken : Option ℕ

/-- The session pin of a request. -/
def sessionPin (sessions : Sessions) : SessionMode → Option Key
  | .stateless     => none
  | .persistent id => sessions.lookup id

/-- Insert an entry. A new key in a full cache first evicts one entry with the least
`last_used`; which one, among several, depends on the iteration order of the map. -/
def InsertLru (cacheSize : ℕ) (cache : Cache) (h : Key) (c : CachedConv) (cache' : Cache) : Prop :=
  if cacheSize ≤ cache.keys.length ∧ h ∉ cache then
    ∃ k e, cache.lookup k = some e ∧
      (∀ k' e', cache.lookup k' = some e' → e.lastUsed ≤ e'.lastUsed) ∧
      cache' = (cache.erase k).insert h c
  else cache' = cache.insert h c

/-- One step of call number `i` for the request `req`. -/
inductive CallStep (cfg : Config) (i : ℕ) (req : InferenceRequest) :
    Shared → Pc → Shared → Pc → Prop where
  | badInput {sh : Shared} {e : String} (h : inputToTurns req.input = .error e) :
      CallStep cfg i req sh .entered sh (.done (.err e))
  | emptyInput {sh : Shared} (h : inputToTurns req.input = .ok []) :
      CallStep cfg i req sh .entered sh
        (.done (.err "litertlm: empty input (no turns to dispatch)"))
  | readPin {sh : Shared} {turns : List Turn} (h : inputToTurns req.input = .ok turns)
      (hne : turns ≠ []) :
      CallStep cfg i req sh .entered sh (.pinRead (sessionPin sh.sessions req.session))
  | hit {sh : Shared} {pin : Option Key} {h : Key} {n : ℕ} {entry : CachedConv}
      (hsel : choosePrefix cfg sh.cache sh.now pin (cfg.prefixOf req) = some (h, n)) (hn : 0 < n)
      (hget : sh.cache.lookup h = some entry) :
      CallStep cfg i req sh (.pinRead pin)
        { sh with cache := sh.cache.insert h { entry with lastUsed := sh.now } }
        (.ready entry.conv n)
  | cloneFails {sh : Shared} {pin : Option Key} {h : Key} {n : ℕ} {entry : CachedConv}
      (hsel : choosePrefix cfg sh.cache sh.now pin (cfg.prefixOf req) = some (h, n)) (hn : 0 < n)
      (hget : sh.cache.lookup h = some entry) (e : String) :
      CallStep cfg i req sh (.pinRead pin)
        { sh with cache := sh.cache.insert h { entry with lastUsed := sh.now } }
        (.done (.err s!"litertlm Conversation::clone: {e}"))
  | miss {sh : Shared} {pin : Option Key}
      (hsel : ∀ h n,
        choosePrefix cfg sh.cache sh.now pin (cfg.prefixOf req) = some (h, n) → n = 0) :
      CallStep cfg i req sh (.pinRead pin) sh .missed
  | create {sh : Shared} :
      CallStep cfg i req sh .missed sh
        (.ready ⟨cfg.systemPrompt req, cfg.samplerForRequest req, []⟩ 0)
  | createFails {sh : Shared} (e : String) :
      CallStep cfg i req sh .missed sh (.done (.err (match cfg.systemPrompt req with
        | some _ => s!"litertlm create_conversation_with_system: {e}"
        | none   => s!"litertlm create_conversation: {e}")))
  | nothingToSend {sh : Shared} {conv : Conversation} {n : ℕ}
      (h : sendableContents ((turnsOf req).drop n) = []) :
      CallStep cfg i req sh (.ready conv n) sh
        (.done (.err "litertlm: nothing to send (suffix has no User/Tool turns)"))
  | arm {sh : Shared} {conv : Conversation} {n : ℕ}
      (h : sendableContents ((turnsOf req).drop n) ≠ []) :
      CallStep cfg i req sh (.ready conv n) { sh with cancelToken := some i }
        (.sending conv (sendableContents ((turnsOf req).drop n)) "")
  | send {sh : Shared} {conv : Conversation} {msg : String} {rest : List String} {last : String}
      (reply : String) :
      CallStep cfg i req sh (.sending conv (msg :: rest) last) sh
        (.sending { conv with history := conv.history ++ [(msg, reply)] } rest
          (if rest = [] then reply else last))
  | sendFails {sh : Shared} {conv : Conversation} {msg : String} {rest : List String}
      {last : String} (e : String) :
      CallStep cfg i req sh (.sending conv (msg :: rest) last) sh
        (.unwinding (.err s!"litertlm send_message_stream: {e}"))
  | sendPanics {sh : Shared} {conv : Conversation} {msg : String} {rest : List String}
      {last : String} :
      CallStep cfg i req sh (.sending conv (msg :: rest) last) sh (.unwinding .panicked)
  | unwind {sh : Shared} {outcome : Outcome} :
      CallStep cfg i req sh (.unwinding outcome) { sh with cancelToken := none } (.done outcome)
  | disarm {sh : Shared} {conv : Conversation} {last : String} :
      CallStep cfg i req sh (.sending conv [] last) { sh with cancelToken := none }
        (.generated conv last)
  | reclone {sh : Shared} {conv : Conversation} {last : String} :
      CallStep cfg i req sh (.generated conv last) sh (.recloned conv conv last)
  | recloneFails {sh : Shared} {conv : Conversation} {last : String} (e : String) :
      CallStep cfg i req sh (.generated conv last) sh
        (.done (.err s!"litertlm Conversation::clone (re-cache): {e}"))
  | insert {sh : Shared} {conv toCache : Conversation} {last : String} {cache' : Cache}
      (h : InsertLru cfg.cacheSize sh.cache (cfg.key ((cfg.prefixOf req).withReply last))
        ⟨toCache, ((cfg.prefixOf req).withReply last).turns.length, sh.now⟩ cache') :
      CallStep cfg i req sh (.recloned conv toCache last) { sh with cache := cache' }
        (.inserted conv (cfg.key ((cfg.prefixOf req).withReply last)) last)
  | writePin {sh : Shared} {conv : Conversation} {newHash : Key} {last id : String}
      (h : req.session = .persistent id) :
      CallStep cfg i req sh (.inserted conv newHash last)
        { sh with sessions := sh.sessions.insert id newHash } (.done (.ok last conv))
  | noPin {sh : Shared} {conv : Conversation} {newHash : Key} {last : String}
      (h : req.session = .stateless) :
      CallStep cfg i req sh (.inserted conv newHash last) sh (.done (.ok last conv))

/-- A call enters once. -/
lemma not_callStep_entered {cfg : Config} {i : ℕ} {req : InferenceRequest} {sh sh' : Shared}
    {pc : Pc} : ¬ CallStep cfg i req sh pc sh' .entered := by
  intro h
  cases h

/-! ### Any number of calls -/

structure Call where
  req : InferenceRequest
  pc : Pc

structure State where
  shared : Shared
  calls : ℕ → Option Call

/-- A slot that has just been started. -/
def State.init : State where
  shared := { cache := ∅, sessions := ∅, now := 0, cancelToken := none }
  calls _ := none

/-- A step of the slot: time passes, a request arrives, or one call moves. Cancelling calls
into the engine without touching this state; the send it interrupts ends as any send may. -/
inductive Step (cfg : Config) : State → State → Prop where
  | tick (s : State) (d : ℕ) :
      Step cfg s { s with shared := { s.shared with now := s.shared.now + d } }
  | arrive (s : State) (i : ℕ) (req : InferenceRequest) (h : s.calls i = none) :
      Step cfg s { s with calls := Function.update s.calls i (some ⟨req, .entered⟩) }
  | call (s : State) (i : ℕ) {req : InferenceRequest} {pc pc' : Pc} {sh' : Shared}
      (h : s.calls i = some ⟨req, pc⟩) (hstep : CallStep cfg i req s.shared pc sh' pc') :
      Step cfg s ⟨sh', Function.update s.calls i (some ⟨req, pc'⟩)⟩

/-- The slot as a transition system. -/
def slot (cfg : Config) : Lib.Machine State where
  init s := s = State.init
  step := Step cfg

variable {cfg : Config} {s t : State}

/-- Where a call in flight is after a step. -/
lemma Step.calls_before (h : Step cfg s t) {j : ℕ} {c : Call} (hj : s.calls j = some c) :
    ∃ pc', t.calls j = some ⟨c.req, pc'⟩ ∧
      (pc' = c.pc ∨ CallStep cfg j c.req s.shared c.pc t.shared pc') := by
  cases h with
  | tick => exact ⟨c.pc, hj, .inl rfl⟩
  | arrive i req hi =>
    have hji : j ≠ i := fun hji => by simp [hji, hi] at hj
    exact ⟨c.pc, (Function.update_of_ne hji ..).trans hj, .inl rfl⟩
  | @call i req pc pc' sh' hi hstep =>
    by_cases hji : j = i
    · subst hji
      obtain rfl : (⟨req, pc⟩ : Call) = c := Option.some.inj (hi.symm.trans hj)
      exact ⟨pc', Function.update_self .., .inr hstep⟩
    · exact ⟨c.pc, (Function.update_of_ne hji ..).trans hj, .inl rfl⟩

/-- Where a call in flight was before a step. -/
lemma Step.calls_after (h : Step cfg s t) {j : ℕ} {c : Call} (hj : t.calls j = some c) :
    s.calls j = some c ∨ c.pc = .entered ∨
      ∃ pc, s.calls j = some ⟨c.req, pc⟩ ∧ CallStep cfg j c.req s.shared pc t.shared c.pc := by
  cases h with
  | tick => exact .inl hj
  | arrive i req hi =>
    by_cases hji : j = i
    · subst hji
      obtain rfl : (⟨req, .entered⟩ : Call) = c :=
        Option.some.inj ((Function.update_self j _ s.calls).symm.trans hj)
      exact .inr (.inl rfl)
    · exact .inl ((Function.update_of_ne hji ..).symm.trans hj)
  | @call i req pc pc' sh' hi hstep =>
    by_cases hji : j = i
    · subst hji
      obtain rfl : (⟨req, pc'⟩ : Call) = c :=
        Option.some.inj ((Function.update_self j _ s.calls).symm.trans hj)
      exact .inr (.inr ⟨pc, hi, hstep⟩)
    · exact .inl ((Function.update_of_ne hji ..).symm.trans hj)

/-- What a step does to the shared state: time passes, or one call moves. -/
lemma Step.shared (h : Step cfg s t) :
    (∃ d, t.shared = { s.shared with now := s.shared.now + d }) ∨
      ∃ i req pc pc', s.calls i = some ⟨req, pc⟩ ∧ t.calls i = some ⟨req, pc'⟩ ∧
        CallStep cfg i req s.shared pc t.shared pc' := by
  cases h with
  | tick d => exact .inl ⟨d, rfl⟩
  | arrive => exact .inl ⟨0, rfl⟩
  | @call i req pc pc' sh' hi hstep =>
    exact .inr ⟨i, req, pc, pc', hi, Function.update_self .., hstep⟩

/-- A call that has selected its prefix is not where it was. -/
lemma CallStep.calls_ne {i : ℕ} {c : Call} {pin : Option Key} {sh sh' : Shared}
    (hstep : CallStep cfg i c.req sh (.pinRead pin) sh' c.pc)
    (hs : s.calls i = some ⟨c.req, .pinRead pin⟩) (ht : t.calls i = some c) :
    t.calls i ≠ s.calls i := by
  rw [ht, hs]
  intro heq
  have hpc : c.pc = .pinRead pin := congrArg Call.pc (Option.some.inj heq)
  rw [hpc] at hstep
  cases hstep

end ModelApi.LiteRt
