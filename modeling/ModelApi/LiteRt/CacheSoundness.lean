import ModelApi.LiteRt.Serve

/-!
# Soundness of the prefix cache

Every pooled conversation holds what its key stands for, in every reachable state, whatever the
calls in flight do to each other. The keys are 64-bit hashes, so this rests on the keys made so
far being free of collisions.
-/

namespace ModelApi.LiteRt

/-! ### What a conversation holds -/

/-- The conversation was created with the system prompt and the sampler of `p`, and all that is
left to send of the turns of `p` is `rest`. -/
structure Conversation.Replays (c : Conversation) (p : Prefix) (rest : List String) : Prop where
  systemPrompt : c.systemPrompt.getD "" = p.sysText
  sampler : c.sampler = ⟨p.topP, p.temperature⟩
  sent : c.sent ++ rest = sendableContents p.turns

/-- The model's reply to the last message. -/
def Conversation.lastReply (c : Conversation) : Option String := c.history.getLast?.map Prod.snd

namespace Conversation.Replays

variable {c : Conversation} {p q : Prefix} {rest : List String}

lemma of_same (h : c.Replays p rest) (hpq : p.Same q) : c.Replays q rest where
  systemPrompt := h.systemPrompt.trans hpq.1
  sampler := by rw [h.sampler, hpq.2.1, hpq.2.2.1]
  sent := by rw [h.sent, hpq.2.2.2]

/-- A new conversation holds no turns. -/
lemma fresh (cfg : Config) (req : InferenceRequest) :
    Replays ⟨cfg.systemPrompt req, cfg.samplerForRequest req, []⟩
      ((cfg.prefixOf req).take 0) [] where
  systemPrompt := rfl
  sampler := cfg.samplerForRequest_eq req
  sent := rfl

/-- The suffix that is sent continues the prefix that is held. -/
lemma of_take {n : ℕ} (h : c.Replays (p.take n) []) :
    c.Replays p (sendableContents (p.turns.drop n)) where
  systemPrompt := h.systemPrompt
  sampler := h.sampler
  sent := by
    have := h.sent
    rw [List.append_nil] at this
    rw [this, Prefix.take, ← sendableContents_append, List.take_append_drop]

lemma send {msg : String} (h : c.Replays p (msg :: rest)) (reply : String) :
    Replays { c with history := c.history ++ [(msg, reply)] } p rest where
  systemPrompt := h.systemPrompt
  sampler := h.sampler
  sent := by rw [Conversation.sent_append, List.append_assoc, List.singleton_append, h.sent]

/-- The reply is not sent, so the prefix that ends with it is held as well. -/
lemma withReply (h : c.Replays p []) (reply : String) : c.Replays (p.withReply reply) [] where
  systemPrompt := h.systemPrompt
  sampler := h.sampler
  sent := by
    rw [h.sent, Prefix.withReply, sendableContents_append, sendableContents_assistant,
      List.append_nil]

end Conversation.Replays

/-! ### Keys -/

lemma Prefix.Same.bytes_eq {p q : Prefix} (h : p.Same q) : p.bytes = q.bytes := by
  rw [Prefix.bytes_eq, Prefix.bytes_eq, h.1, h.2.1, h.2.2.1, h.2.2.2]

lemma Prefix.Same.key_eq (cfg : Config) {p q : Prefix} (h : p.Same q) : cfg.key p = cfg.key q := by
  have hbytes := h.bytes_eq
  simp only [Prefix.bytes] at hbytes
  simp only [Config.key, hashPrefix, hbytes]

/-- The prefix under which a call has inserted its conversation. -/
def Pc.insertedPrefix (p : Prefix) : Pc → Option Prefix
  | .inserted _ _ last    => some (p.withReply last)
  | .done (.ok reply _)   => some (p.withReply reply)
  | _                     => none

/-- The prefixes a call has hashed, or can still hash to look its request up. -/
def Call.keyed (cfg : Config) (c : Call) : Set Prefix :=
  {p | (∃ n, p = (cfg.prefixOf c.req).take n) ∨ c.pc.insertedPrefix (cfg.prefixOf c.req) = some p}

/-- The prefixes whose keys matter to a run that has reached `s`. -/
def keyed (cfg : Config) (s : State) : Set Prefix :=
  {p | ∃ i c, s.calls i = some c ∧ p ∈ c.keyed cfg}

/-- Equal keys come from equal prefixes, among those of the run. -/
def NoCollision (cfg : Config) (s : State) : Prop :=
  ∀ p ∈ keyed cfg s, ∀ q ∈ keyed cfg s, cfg.key p = cfg.key q → p.Same q

/-- The prefixes of `Call.keyed`, listed. -/
def Call.keyedList (cfg : Config) (c : Call) : List Prefix :=
  (List.range ((cfg.prefixOf c.req).turns.length + 1)).map (cfg.prefixOf c.req).take ++
    (c.pc.insertedPrefix (cfg.prefixOf c.req)).toList

/-- The prefixes of `keyed`, listed, when at most the first `n` calls have arrived. -/
def State.keyedList (cfg : Config) (s : State) (n : ℕ) : List Prefix :=
  (List.range n).flatMap fun i => (s.calls i).toList.flatMap (Call.keyedList cfg)

variable {cfg : Config}

lemma Call.mem_keyedList {c : Call} {p : Prefix} (h : p ∈ c.keyed cfg) : p ∈ c.keyedList cfg := by
  obtain ⟨n, rfl⟩ | hp := h
  · refine List.mem_append_left _ (List.mem_map.mpr ?_)
    refine ⟨min n (cfg.prefixOf c.req).turns.length, List.mem_range.mpr (by omega), ?_⟩
    refine congrArg (fun turns => { cfg.prefixOf c.req with turns := turns }) ?_
    exact List.take_eq_take_iff.mpr (by omega)
  · exact List.mem_append_right _ (Option.mem_toList.mpr hp)

/-- Whether keys have collided is decided on finitely many prefixes. -/
lemma noCollision_of_keyedList {s : State} {n : ℕ} (hfree : ∀ i, n ≤ i → s.calls i = none)
    (h : ∀ p ∈ s.keyedList cfg n, ∀ q ∈ s.keyedList cfg n, cfg.key p = cfg.key q → p.Same q) :
    NoCollision cfg s := by
  have hmem : ∀ p ∈ keyed cfg s, p ∈ s.keyedList cfg n := by
    rintro p ⟨i, c, hi, hp⟩
    have hin : i < n := by
      by_contra hni
      rw [hfree i (by omega)] at hi
      cases hi
    refine List.mem_flatMap.mpr ⟨i, List.mem_range.mpr hin, ?_⟩
    exact List.mem_flatMap.mpr ⟨c, Option.mem_toList.mpr hi, c.mem_keyedList hp⟩
  exact fun p hp q hq => h p (hmem p hp) q (hmem q hq)

/-- An insertion is remembered to the end of the call. -/
lemma CallStep.insertedPrefix_eq {i : ℕ} {req : InferenceRequest} {sh sh' : Shared} {pc pc' : Pc}
    (h : CallStep cfg i req sh pc sh' pc') {p q : Prefix} (hp : pc.insertedPrefix p = some q) :
    pc'.insertedPrefix p = some q := by
  cases h with
  | writePin => exact hp
  | noPin => exact hp
  | _ => cases hp

lemma Step.keyed_subset {s t : State} (h : Step cfg s t) : keyed cfg s ⊆ keyed cfg t := by
  rintro p ⟨j, c, hj, hp⟩
  obtain ⟨pc', hj', rfl | hstep⟩ := h.calls_before hj
  · exact ⟨j, c, hj', hp⟩
  · exact ⟨j, ⟨c.req, pc'⟩, hj', hp.imp_right hstep.insertedPrefix_eq⟩

lemma Step.noCollision {s t : State} (h : Step cfg s t) (ht : NoCollision cfg t) :
    NoCollision cfg s :=
  fun p hp q hq => ht p (h.keyed_subset hp) q (h.keyed_subset hq)

/-! ### What a step does to the cache -/

/-- An insertion adds its entry and keeps some of the others. -/
lemma InsertLru.lookup {cacheSize : ℕ} {cache cache' : Cache} {h k : Key} {c e : CachedConv}
    (hins : InsertLru cacheSize cache h c cache') (hk : cache'.lookup k = some e) :
    (k = h ∧ e = c) ∨ cache.lookup k = some e := by
  have hinsert : ∀ base : Cache, (base.insert h c).lookup k = some e →
      (k = h ∧ e = c) ∨ base.lookup k = some e := by
    intro base hbase
    by_cases hkh : k = h
    · subst hkh
      rw [AList.lookup_insert] at hbase
      exact .inl ⟨rfl, (Option.some.inj hbase).symm⟩
    · rw [AList.lookup_insert_ne hkh] at hbase
      exact .inr hbase
  rw [InsertLru] at hins
  split at hins
  · obtain ⟨old, _, _, _, rfl⟩ := hins
    refine (hinsert _ hk).imp_right fun herase => ?_
    by_cases hko : k = old
    · subst hko
      rw [AList.lookup_erase] at herase
      cases herase
    · rwa [AList.lookup_erase_ne hko] at herase
  · subst hins
    exact hinsert _ hk

/-- The entries after a step: old ones, perhaps touched, and the one a call inserts. -/
lemma CallStep.lookup {i : ℕ} {req : InferenceRequest} {sh sh' : Shared} {pc pc' : Pc}
    (hstep : CallStep cfg i req sh pc sh' pc') {h : Key} {c : CachedConv}
    (hc : sh'.cache.lookup h = some c) :
    (∃ e, sh.cache.lookup h = some e ∧ c.conv = e.conv ∧ c.turnCount = e.turnCount) ∨
      ∃ conv last, pc = .recloned conv c.conv last ∧
        pc'.insertedPrefix (cfg.prefixOf req) = some ((cfg.prefixOf req).withReply last) ∧
        h = cfg.key ((cfg.prefixOf req).withReply last) ∧
        c.turnCount = ((cfg.prefixOf req).withReply last).turns.length := by
  have touched : ∀ {k : Key} {entry : CachedConv}, sh.cache.lookup k = some entry →
      (sh.cache.insert k { entry with lastUsed := sh.now }).lookup h = some c →
      ∃ e, sh.cache.lookup h = some e ∧ c.conv = e.conv ∧ c.turnCount = e.turnCount := by
    intro k entry hget hc
    by_cases hkh : h = k
    · subst hkh
      rw [AList.lookup_insert] at hc
      cases hc
      exact ⟨entry, hget, rfl, rfl⟩
    · rw [AList.lookup_insert_ne hkh] at hc
      exact ⟨c, hc, rfl, rfl⟩
  cases hstep with
  | hit _ _ hget => exact .inl (touched hget hc)
  | cloneFails _ _ hget => exact .inl (touched hget hc)
  | insert hins =>
    obtain ⟨rfl, rfl⟩ | hold := hins.lookup hc
    · exact .inr ⟨_, _, rfl, rfl, rfl, rfl⟩
    · exact .inl ⟨c, hold, rfl, rfl⟩
  | _ => exact .inl ⟨c, hc, rfl, rfl⟩

/-! ### The invariant -/

/-- Every entry holds a prefix of the run that its key stands for. -/
def EntriesSound (cfg : Config) (s : State) : Prop :=
  ∀ h c, s.shared.cache.lookup h = some c →
    ∃ p ∈ keyed cfg s, cfg.key p = h ∧ c.turnCount = p.turns.length ∧ c.conv.Replays p []

/-- A reply was given by a conversation that holds the request. -/
def Outcome.Sound (p : Prefix) : Outcome → Prop
  | .ok reply conv => conv.Replays p [] ∧ conv.lastReply = some reply
  | _              => True

/-- What a call knows about its working conversation. -/
def Pc.Sound (p : Prefix) : Pc → Prop
  | .ready conv n               => conv.Replays (p.take n) []
  | .sending conv rest last     => conv.Replays p rest ∧ (rest = [] → conv.lastReply = some last)
  | .unwinding outcome          => outcome.Sound p
  | .generated conv last        => conv.Replays p [] ∧ conv.lastReply = some last
  | .recloned conv toCache last =>
    (conv.Replays p [] ∧ conv.lastReply = some last) ∧ toCache.Replays p []
  | .inserted conv _ last       => conv.Replays p [] ∧ conv.lastReply = some last
  | .done outcome               => outcome.Sound p
  | _                           => True

structure Sound (cfg : Config) (s : State) : Prop where
  entries : EntriesSound cfg s
  calls : ∀ i c, s.calls i = some c → c.pc.Sound (cfg.prefixOf c.req)

lemma sound_init : Sound cfg State.init where
  entries _ _ h := by cases h
  calls _ _ h := by cases h

/-- One step of a call keeps what the call knows, when the entries it may clone hold the prefix
they are looked up with. -/
lemma CallStep.sound {i : ℕ} {req : InferenceRequest} {sh sh' : Shared} {pc pc' : Pc}
    (hstep : CallStep cfg i req sh pc sh' pc')
    (hentries : ∀ n c, sh.cache.lookup (cfg.key ((cfg.prefixOf req).take n)) = some c →
      c.conv.Replays ((cfg.prefixOf req).take n) [])
    (hpc : pc.Sound (cfg.prefixOf req)) : pc'.Sound (cfg.prefixOf req) := by
  cases hstep with
  | hit hsel _ hget =>
    obtain ⟨_, rfl, _⟩ := choosePrefix_eq_some hsel
    exact hentries _ _ hget
  | create => exact .fresh cfg req
  | arm hne => exact ⟨Conversation.Replays.of_take hpc, fun h => absurd h hne⟩
  | send reply =>
    refine ⟨hpc.1.send reply, fun hrest => ?_⟩
    subst hrest
    simp [Conversation.lastReply]
  | unwind => exact hpc
  | disarm => exact ⟨hpc.1, hpc.2 rfl⟩
  | reclone => exact ⟨hpc, hpc.1⟩
  | insert => exact hpc.1
  | writePin => exact hpc
  | noPin => exact hpc
  | _ => trivial

/-- Without collisions, an entry found under the key of a prefix of the run holds it. -/
lemma EntriesSound.replays {s : State} (h : EntriesSound cfg s) (hcol : NoCollision cfg s)
    {p : Prefix} (hp : p ∈ keyed cfg s) {c : CachedConv}
    (hc : s.shared.cache.lookup (cfg.key p) = some c) : c.conv.Replays p [] := by
  obtain ⟨q, hq, hkey, -, hconv⟩ := h _ _ hc
  exact hconv.of_same (hcol q hq p hp hkey)

/-- What holds of every entry and a prefix of its key is kept, if it holds of what a call
inserts. -/
lemma Step.entries {Q : Prefix → Conversation → Prop} {s t : State} (hst : Step cfg s t)
    (h : ∀ k e, s.shared.cache.lookup k = some e →
      ∃ p ∈ keyed cfg s, cfg.key p = k ∧ e.turnCount = p.turns.length ∧ Q p e.conv)
    (hins : ∀ i req conv new last, s.calls i = some ⟨req, .recloned conv new last⟩ →
      Q ((cfg.prefixOf req).withReply last) new)
    {k : Key} {c : CachedConv} (hc : t.shared.cache.lookup k = some c) :
    ∃ p ∈ keyed cfg t, cfg.key p = k ∧ c.turnCount = p.turns.length ∧ Q p c.conv := by
  have kept : ∀ e, s.shared.cache.lookup k = some e → c.conv = e.conv →
      c.turnCount = e.turnCount →
      ∃ p ∈ keyed cfg t, cfg.key p = k ∧ c.turnCount = p.turns.length ∧ Q p c.conv := by
    intro e he hconv hcount
    obtain ⟨p, hp, hrest⟩ := h k e he
    exact ⟨p, hst.keyed_subset hp, by rw [hconv, hcount]; exact hrest⟩
  obtain ⟨d, hd⟩ | ⟨i, req, pc, pc', hi, hi', hstep⟩ := hst.shared
  · rw [hd] at hc
    exact kept c hc rfl rfl
  · obtain ⟨e, he, hconv, hcount⟩ | ⟨conv, last, rfl, hinserted, rfl, hcount⟩ := hstep.lookup hc
    · exact kept e he hconv hcount
    · exact ⟨_, ⟨i, _, hi', .inr hinserted⟩, rfl, hcount, hins i req conv c.conv last hi⟩

lemma Sound.step {s t : State} (h : Sound cfg s) (hcol : NoCollision cfg s)
    (hst : Step cfg s t) : Sound cfg t where
  entries k c hc := by
    refine hst.entries (Q := fun p conv => conv.Replays p []) h.entries ?_ hc
    intro i req conv new last hi
    exact (h.calls i _ hi).2.withReply last
  calls i c hi := by
    obtain hold | hpc | ⟨pc, hi', hstep⟩ := hst.calls_after hi
    · exact h.calls i c hold
    · rw [hpc]
      trivial
    · exact hstep.sound (fun n e he => h.entries.replays hcol ⟨i, _, hi', .inl ⟨n, rfl⟩⟩ he)
        (h.calls i _ hi')

/-- As long as no two keys collide, every reachable state is sound. -/
lemma sound_of_reachable {s : State} (hs : (slot cfg).Reachable s) (hcol : NoCollision cfg s) :
    Sound cfg s := by
  refine hs.invariant_of_hereditary (P := Sound cfg)
    (fun _ _ (hst : Step cfg _ _) ht => hst.noCollision ht) ?_
    (fun _ _ (hst : Step cfg _ _) ht h => h.step (hst.noCollision ht) hst) hcol
  rintro _ rfl
  exact sound_init

/-- In every state that any interleaving of calls reaches without a collision, every cached entry
holds exactly the turns its key stands for, and every request that was answered was answered by
a conversation that was sent exactly the user and tool contents of that request. -/
theorem cache_sound {s : State} (hs : (slot cfg).Reachable s) (hcol : NoCollision cfg s) :
    (∀ h c, s.shared.cache.lookup h = some c →
      ∃ ts, h = hashPrefix cfg.xxh3_128 c.conv.systemPrompt c.conv.sampler.topP
          c.conv.sampler.temperature ts ∧
        c.turnCount = ts.length ∧ c.conv.sent = sendableContents ts) ∧
    ∀ i req reply conv, s.calls i = some ⟨req, .done (.ok reply conv)⟩ →
      conv.sent = sendableContents (turnsOf req) ∧
        conv.systemPrompt.getD "" = (cfg.systemPrompt req).getD "" ∧
        conv.sampler = cfg.samplerForRequest req ∧ conv.lastReply = some reply := by
  have hsound := sound_of_reachable hs hcol
  refine ⟨fun h c hc => ?_, fun i req reply conv hi => ?_⟩
  · obtain ⟨p, -, rfl, hcount, hconv⟩ := hsound.entries h c hc
    refine ⟨p.turns, ?_, hcount, by simpa using hconv.sent⟩
    have hsame : p.Same ⟨c.conv.systemPrompt, c.conv.sampler.topP, c.conv.sampler.temperature,
        p.turns⟩ := by
      rw [hconv.sampler]
      exact ⟨hconv.systemPrompt.symm, rfl, rfl, rfl⟩
    exact hsame.key_eq cfg
  · obtain ⟨hconv, hreply⟩ := hsound.calls i _ hi
    refine ⟨by simpa [Config.prefixOf] using hconv.sent, hconv.systemPrompt, ?_, hreply⟩
    rw [hconv.sampler, cfg.samplerForRequest_eq]
    rfl

/-- A question, and the same conversation continued. -/
def demoRequests : List (ℕ × InferenceRequest) :=
  [(0, .plain .stateless [.user "hi"]),
    (1, .plain .stateless [.user "hi", .assistant "a1", .user "more"])]

theorem cache_sound_demo : ∃ s, (slot demoConfig).Reachable s ∧ NoCollision demoConfig s ∧
    s.shared.cache.keys.length = 2 ∧
    (∀ h c, s.shared.cache.lookup h = some c →
      ∃ ts, h = hashPrefix demoConfig.xxh3_128 c.conv.systemPrompt c.conv.sampler.topP
          c.conv.sampler.temperature ts ∧
        c.turnCount = ts.length ∧ c.conv.sent = sendableContents ts) := by
  have hrun : ∃ s, demoConfig.serveAll demoModel State.init 0 demoRequests = some s ∧
      s.shared.cache.keys.length = 2 ∧
      ∀ p ∈ s.keyedList demoConfig 2, ∀ q ∈ s.keyedList demoConfig 2,
        demoConfig.key p = demoConfig.key q → p.Same q := by
    decide +kernel
  obtain ⟨s, hs, hlen, hlist⟩ := hrun
  obtain ⟨hreach, hfree⟩ := reachable_serveAll hs
  have hcol := noCollision_of_keyedList hfree hlist
  exact ⟨s, hreach, hcol, hlen, (cache_sound hreach hcol).1⟩

end ModelApi.LiteRt
