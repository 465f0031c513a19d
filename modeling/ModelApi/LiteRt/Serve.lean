import ModelApi.LiteRt.Slot

/-!
# A call served on its own

`Config.serve` computes a whole successful call in one go, for a given model, with no other call
in between. The steps of the slot can do the same, so every state that a sequence of such calls
ends in is reachable.
-/

namespace ModelApi.LiteRt

/-- Send the messages one by one; only the last reply is kept. -/
def replay (model : Conversation → String → String) :
    Conversation → String → List String → Conversation × String
  | conv, last, []          => (conv, last)
  | conv, last, msg :: rest =>
    let reply := model conv msg
    replay model { conv with history := conv.history ++ [(msg, reply)] }
      (if rest = [] then reply else last) rest

/-- `InsertLru` with the first of the least recently used entries as the victim. -/
def insertLru (cacheSize : ℕ) (cache : Cache) (h : Key) (c : CachedConv) : Cache :=
  if cacheSize ≤ cache.keys.length ∧ h ∉ cache then
    match cache.entries.argmin fun e => e.2.lastUsed with
    | some e => (cache.erase e.1).insert h c
    | none   => cache.insert h c
  else cache.insert h c

lemma insertLru_spec {cacheSize : ℕ} (hsize : 0 < cacheSize) (cache : Cache) (h : Key)
    (c : CachedConv) : InsertLru cacheSize cache h c (insertLru cacheSize cache h c) := by
  rw [InsertLru, insertLru]
  split
  · next hfull =>
    cases hmin : cache.entries.argmin fun e => e.2.lastUsed with
    | none =>
      rw [List.argmin_eq_none] at hmin
      have : cache.keys.length = 0 := by rw [AList.keys, hmin]; rfl
      omega
    | some e =>
      refine ⟨e.1, e.2, AList.mem_lookup_iff.mpr (List.argmin_mem hmin), fun k' e' hk' => ?_, rfl⟩
      exact List.le_of_mem_argmin (f := fun e : (_ : Key) × CachedConv => e.2.lastUsed)
        (AList.mem_lookup_iff.mp hk') hmin
  · rfl

/-- The working conversation, and the cache with the donor touched. -/
def Config.working (cfg : Config) (sh : Shared) (req : InferenceRequest) :
    Conversation × ℕ × Cache :=
  let fresh : Conversation := ⟨cfg.systemPrompt req, cfg.samplerForRequest req, []⟩
  match choosePrefix cfg sh.cache sh.now (sessionPin sh.sessions req.session)
      (cfg.prefixOf req) with
  | some (h, n + 1) =>
    match sh.cache.lookup h with
    | some entry => (entry.conv, n + 1, sh.cache.insert h { entry with lastUsed := sh.now })
    | none       => (fresh, 0, sh.cache)
  | _ => (fresh, 0, sh.cache)

/-- The session map after a call whose conversation was inserted under `h`. -/
def pinSession (sessions : Sessions) (h : Key) : SessionMode → Sessions
  | .stateless     => sessions
  | .persistent id => sessions.insert id h

/-- The shared state, the reply and the conversation that gave it, after a call without
failures. -/
def Config.serve (cfg : Config) (model : Conversation → String → String) (sh : Shared)
    (req : InferenceRequest) : Option (Shared × String × Conversation) :=
  let (conv, n, cache) := cfg.working sh req
  let msgs := sendableContents ((turnsOf req).drop n)
  if msgs = [] then none
  else
    let (conv, reply) := replay model conv "" msgs
    let full := (cfg.prefixOf req).withReply reply
    let cache := insertLru cfg.cacheSize cache (cfg.key full) ⟨conv, full.turns.length, sh.now⟩
    some (⟨cache, pinSession sh.sessions (cfg.key full) req.session, sh.now, none⟩, reply, conv)

/-! ### The steps of such a call -/

variable {cfg : Config}

/-- Call `i` at `pc`, next to the calls `others`. -/
def callAt (others : ℕ → Option Call) (i : ℕ) (req : InferenceRequest) (sh : Shared) (pc : Pc) :
    State :=
  ⟨sh, Function.update others i (some ⟨req, pc⟩)⟩

variable {others : ℕ → Option Call} {i : ℕ} {req : InferenceRequest}

lemma callAt_self {sh : Shared} {pc : Pc} :
    (callAt others i req sh pc).calls i = some ⟨req, pc⟩ := Function.update_self ..

lemma callAt_of_ne {sh : Shared} {pc : Pc} {j : ℕ} (hj : j ≠ i) :
    (callAt others i req sh pc).calls j = others j := Function.update_of_ne hj ..

lemma step_callAt {sh sh' : Shared} {pc pc' : Pc} (h : CallStep cfg i req sh pc sh' pc') :
    (slot cfg).step (callAt others i req sh pc) (callAt others i req sh' pc') := by
  have hstep : Step cfg (callAt others i req sh pc) _ := .call _ i callAt_self h
  rwa [callAt, Function.update_idem] at hstep

/-- The system takes the steps of call `i`, which selects its prefix while the shared state is
`sh₀`. -/
def Takes (M : Lib.Machine State) (cfg : Config) (others : ℕ → Option Call) (i : ℕ)
    (req : InferenceRequest) (sh₀ : Shared) : Prop :=
  ∀ {sh sh' : Shared} {pc pc' : Pc}, (∀ pin, pc = .pinRead pin → sh = sh₀) →
    CallStep cfg i req sh pc sh' pc' →
      M.step (callAt others i req sh pc) (callAt others i req sh' pc')

lemma slot_takes (others : ℕ → Option Call) (i : ℕ) (req : InferenceRequest) (sh₀ : Shared) :
    Takes (slot cfg) cfg others i req sh₀ :=
  fun _ hstep => step_callAt hstep

section Takes

variable {M : Lib.Machine State} {sh₀ : Shared}

/-- A step that selects no prefix. -/
lemma Takes.step (hM : Takes M cfg others i req sh₀) {sh sh' : Shared} {pc pc' : Pc}
    (hstep : CallStep cfg i req sh pc sh' pc') (hpc : ∀ pin, pc ≠ .pinRead pin) :
    M.step (callAt others i req sh pc) (callAt others i req sh' pc') :=
  hM (fun pin h => absurd h (hpc pin)) hstep

lemma steps_working {sh : Shared} (hM : Takes M cfg others i req sh) {conv : Conversation} {n : ℕ}
    {cache : Cache} (h : cfg.working sh req = (conv, n, cache)) :
    M.Steps (callAt others i req sh (.pinRead (sessionPin sh.sessions req.session)))
      (callAt others i req { sh with cache := cache } (.ready conv n)) := by
  have fresh (hsel : ∀ k n, choosePrefix cfg sh.cache sh.now
        (sessionPin sh.sessions req.session) (cfg.prefixOf req) = some (k, n) → n = 0) :
      M.Steps (callAt others i req sh (.pinRead (sessionPin sh.sessions req.session)))
        (callAt others i req sh
          (.ready ⟨cfg.systemPrompt req, cfg.samplerForRequest req, []⟩ 0)) :=
    .tail (.single (hM (fun _ _ => rfl) (.miss hsel))) (hM.step .create nofun)
  simp only [Config.working] at h
  split at h
  · next k m hsel =>
    obtain ⟨-, -, hlive⟩ := choosePrefix_eq_some hsel
    cases hget : sh.cache.lookup k with
    | none =>
      obtain ⟨-, rfl, -⟩ := choosePrefix_eq_some hsel
      rw [liveAt, hget] at hlive
      cases hlive
    | some entry =>
      rw [hget] at h
      cases h
      exact .single (hM (fun _ _ => rfl) (.hit hsel (Nat.succ_pos m) hget))
  · next hsel =>
    cases h
    refine fresh fun k n hk => ?_
    cases n with
    | zero => rfl
    | succ n => exact absurd hk (hsel k n)

lemma steps_replay (hM : Takes M cfg others i req sh₀) (model : Conversation → String → String)
    {sh : Shared} {msgs : List String} :
    ∀ {conv conv' : Conversation} {last last' : String},
      replay model conv last msgs = (conv', last') →
        M.Steps (callAt others i req sh (.sending conv msgs last))
          (callAt others i req sh (.sending conv' [] last')) := by
  induction msgs with
  | nil =>
    intro conv conv' last last' h
    cases h
    exact .refl
  | cons msg rest ih =>
    intro conv conv' last last' h
    exact .head (hM.step (.send (model conv msg)) nofun) (ih h)

/-- A call that has generated its reply re-caches its conversation and pins its session. -/
lemma steps_recache (hM : Takes M cfg others i req sh₀) {sh : Shared} {conv : Conversation}
    {reply : String} :
    let full := (cfg.prefixOf req).withReply reply
    M.Steps (callAt others i req sh (.generated conv reply))
      (callAt others i req
        { sh with
          cache := insertLru cfg.cacheSize sh.cache (cfg.key full)
            ⟨conv, full.turns.length, sh.now⟩
          sessions := pinSession sh.sessions (cfg.key full) req.session }
        (.done (.ok reply conv))) := by
  have hsize : 0 < cfg.cacheSize := lt_max_of_lt_right Nat.one_pos
  refine .head (hM.step .reclone nofun)
    (.head (hM.step (.insert (insertLru_spec hsize ..)) nofun) ?_)
  cases hsession : req.session with
  | stateless => exact .single (hM.step (.noPin hsession) nofun)
  | persistent id => exact .single (hM.step (.writePin hsession) nofun)

/-- A request with something to send has turns. -/
lemma inputToTurns_of_sendable {n : ℕ} (h : sendableContents ((turnsOf req).drop n) ≠ []) :
    inputToTurns req.input = .ok (turnsOf req) ∧ turnsOf req ≠ [] := by
  have hne : turnsOf req ≠ [] := fun h' => h (by rw [h', List.drop_nil]; rfl)
  refine ⟨?_, hne⟩
  cases hin : inputToTurns req.input with
  | ok turns => rw [turnsOf, hin]
  | error e => exact absurd (by rw [turnsOf, hin]) hne

/-- The steps of a call that has read its pin, up to the end of its send loop. -/
lemma steps_of_pinRead (model : Conversation → String → String) {sh : Shared} {conv : Conversation}
    {n : ℕ} {cache : Cache} (hM : Takes M cfg others i req sh)
    (hworking : cfg.working sh req = (conv, n, cache))
    (hmsgs : sendableContents ((turnsOf req).drop n) ≠ []) :
    M.Steps (callAt others i req sh (.pinRead (sessionPin sh.sessions req.session)))
      (callAt others i req { sh with cache := cache, cancelToken := none }
        (.generated (replay model conv "" (sendableContents ((turnsOf req).drop n))).1
          (replay model conv "" (sendableContents ((turnsOf req).drop n))).2)) := by
  refine (steps_working hM hworking).trans (.head (hM.step (.arm hmsgs) nofun) ?_)
  exact (steps_replay hM model rfl).tail (hM.step .disarm nofun)

/-- The steps of a call up to the end of its send loop. -/
lemma steps_generated (model : Conversation → String → String) {sh : Shared} {conv : Conversation}
    {n : ℕ} {cache : Cache} (hM : Takes M cfg others i req sh)
    (harrive : M.step ⟨sh, others⟩ (callAt others i req sh .entered))
    (hworking : cfg.working sh req = (conv, n, cache))
    (hmsgs : sendableContents ((turnsOf req).drop n) ≠ []) :
    M.Steps ⟨sh, others⟩
      (callAt others i req { sh with cache := cache, cancelToken := none }
        (.generated (replay model conv "" (sendableContents ((turnsOf req).drop n))).1
          (replay model conv "" (sendableContents ((turnsOf req).drop n))).2)) := by
  obtain ⟨hturns, hne⟩ := inputToTurns_of_sendable hmsgs
  refine .head harrive (.head (hM.step (.readPin hturns hne) nofun) ?_)
  exact steps_of_pinRead model hM hworking hmsgs

/-- The steps of a call that is served on its own. -/
theorem steps_serve {model : Conversation → String → String} {sh sh' : Shared} {reply : String}
    {conv : Conversation} (hM : Takes M cfg others i req sh)
    (harrive : M.step ⟨sh, others⟩ (callAt others i req sh .entered))
    (h : cfg.serve model sh req = some (sh', reply, conv)) :
    M.Steps ⟨sh, others⟩ (callAt others i req sh' (.done (.ok reply conv))) := by
  simp only [Config.serve] at h
  rcases hworking : cfg.working sh req with ⟨conv₀, n, cache⟩
  rw [hworking] at h
  simp only [Option.ite_none_left_eq_some, Option.some.injEq, Prod.mk.injEq] at h
  obtain ⟨hmsgs, rfl, rfl, rfl⟩ := h
  exact (steps_generated model hM harrive hworking hmsgs).trans (steps_recache hM)

end Takes

/-- Serve requests one after another, each after a pause, as the calls number `i`, `i + 1`, … -/
def Config.serveAll (cfg : Config) (model : Conversation → String → String) :
    State → ℕ → List (ℕ × InferenceRequest) → Option State
  | s, _, []                  => some s
  | s, i, (pause, req) :: rest =>
    let sh := { s.shared with now := s.shared.now + pause }
    match cfg.serve model sh req with
    | none                   => none
    | some (sh', reply, conv) =>
      serveAll cfg model (callAt s.calls i req sh' (.done (.ok reply conv))) (i + 1) rest

lemma steps_serveAll {model : Conversation → String → String}
    {reqs : List (ℕ × InferenceRequest)} :
    ∀ {s t : State} {i : ℕ}, (∀ j, i ≤ j → s.calls j = none) →
      cfg.serveAll model s i reqs = some t →
        (slot cfg).Steps s t ∧ ∀ j, i + reqs.length ≤ j → t.calls j = none := by
  induction reqs with
  | nil =>
    intro s t i hfree h
    cases h
    exact ⟨.refl, hfree⟩
  | cons head rest ih =>
    obtain ⟨pause, req⟩ := head
    intro s t i hfree h
    simp only [Config.serveAll] at h
    split at h
    · cases h
    · next sh' reply conv hserve =>
      have htick : (slot cfg).step s ⟨{ s.shared with now := s.shared.now + pause }, s.calls⟩ :=
        .tick s pause
      obtain ⟨hsteps, hrest⟩ := ih (fun j hj =>
        (callAt_of_ne (by omega)).trans (hfree j (by omega))) h
      have harrive : (slot cfg).step ⟨{ s.shared with now := s.shared.now + pause }, s.calls⟩ _ :=
        .arrive _ i req (hfree i le_rfl)
      have hcall := steps_serve (slot_takes s.calls i req _) harrive hserve
      refine ⟨.head htick (hcall.trans hsteps), fun j hj => ?_⟩
      exact hrest j (by simp only [List.length_cons] at hj; omega)

theorem reachable_serveAll {model : Conversation → String → String}
    {reqs : List (ℕ × InferenceRequest)} {s : State}
    (h : cfg.serveAll model State.init 0 reqs = some s) :
    (slot cfg).Reachable s ∧ ∀ j, reqs.length ≤ j → s.calls j = none := by
  obtain ⟨hsteps, hfree⟩ := steps_serveAll (fun _ _ => rfl) h
  exact ⟨⟨State.init, rfl, hsteps⟩, fun j hj => hfree j (by omega)⟩

/-! ### A configuration for concrete runs -/

/-- A polynomial of the bytes in the upper 64 bits. -/
def polyHash (bytes : List UInt8) : BitVec 128 :=
  BitVec.ofNat 128 (2 ^ 64 * bytes.foldl (fun acc b => (31 * acc + b.toNat) % 2 ^ 64) 7)

def demoConfig : Config where
  xxh3_128 := polyHash
  samplerDefault := ⟨⟨0⟩, DEFAULT_TEMPERATURE⟩
  samplerDefault_temperature := rfl
  cacheSizeArg := 8
  ttl := 100
  defaultSystemPrompt := none

/-- A model that counts the messages it has answered. -/
def demoModel (conv : Conversation) (_msg : String) : String := s!"a{conv.history.length + 1}"

def firstRequest : InferenceRequest := .plain .stateless [.user "hi"]

/-- The first request again, with its answer and a further question behind it. -/
def continuedRequest : InferenceRequest :=
  .plain .stateless [.user "hi", .assistant "a1", .user "more"]

end ModelApi.LiteRt
