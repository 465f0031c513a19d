import ModelApi.LiteRt.CacheSoundness

/-!
# Selecting the prefix to resume

Without a session pin the slot resumes the longest live prefix of the request. A usable pin is
taken without looking for a longer one, so the two selections part exactly when there is one.
-/

namespace ModelApi.LiteRt

variable {cfg : Config} {cache : Cache} {now : ℕ} {p : Prefix} {pin : Option Key}

/-- The result of a selection is the longest live prefix of at most `m` turns, if there is any. -/
def LongestLive (cfg : Config) (cache : Cache) (now : ℕ) (p : Prefix) (m : ℕ) :
    Option (Key × ℕ) → Prop
  | none        => ∀ n ≤ m, liveAt cfg cache now p n = false
  | some (h, n) => n ≤ m ∧ h = cfg.key (p.take n) ∧ liveAt cfg cache now p n = true ∧
      ∀ k, n < k → k ≤ m → liveAt cfg cache now p k = false

/-- The entry the session pin points at is live, not longer than the request, and stored under
the key of that many turns of the request. -/
structure PinUsable (cfg : Config) (cache : Cache) (now : ℕ) (p : Prefix) (h : Key)
    (c : CachedConv) : Prop where
  lookup : cache.lookup h = some c
  live : live cfg now c = true
  turnCount : c.turnCount ≤ p.turns.length
  key : cfg.key (p.take c.turnCount) = h

/-- The pin is usable, and a live entry holds more turns of the request than the pinned one. -/
def Overtaken (cfg : Config) (cache : Cache) (now : ℕ) (p : Prefix) (pin : Option Key) : Prop :=
  ∃ h c n, pin = some h ∧ PinUsable cfg cache now p h c ∧ c.turnCount < n ∧
    n ≤ p.turns.length ∧ liveAt cfg cache now p n = true

/-- At most one selection is the longest. -/
lemma LongestLive.unique {m : ℕ} {r r' : Option (Key × ℕ)}
    (h : LongestLive cfg cache now p m r) (h' : LongestLive cfg cache now p m r') : r = r' := by
  cases r with
  | none =>
    cases r' with
    | none => rfl
    | some r' => exact absurd h'.2.2.1 (by rw [h _ h'.1]; decide)
  | some r =>
    cases r' with
    | none => exact absurd h.2.2.1 (by rw [h' _ h.1]; decide)
    | some r' =>
      obtain ⟨k, n⟩ := r
      obtain ⟨k', n'⟩ := r'
      obtain ⟨hn, rfl, hlive, hmax⟩ := h
      obtain ⟨hn', rfl, hlive', hmax'⟩ := h'
      obtain hlt | rfl | hgt := lt_trichotomy n n'
      · exact absurd hlive' (by rw [hmax n' hlt hn']; decide)
      · rfl
      · exact absurd hlive (by rw [hmax' n hgt hn]; decide)

/-- The scan finds the longest live prefix. -/
lemma scanPrefix_longestLive (m : ℕ) :
    LongestLive cfg cache now p m (scanPrefix cfg cache now p m) := by
  induction m with
  | zero =>
    rw [scanPrefix]
    split
    · next hlive => exact ⟨le_rfl, rfl, hlive, fun k hk hk' => by omega⟩
    · next hlive =>
      intro n hn
      obtain rfl : n = 0 := by omega
      exact Bool.eq_false_iff.mpr hlive
  | succ m ih =>
    rw [scanPrefix]
    split
    · next hlive => exact ⟨le_rfl, rfl, hlive, fun k hk hk' => by omega⟩
    · next hlive =>
      rw [Bool.not_eq_true] at hlive
      -- the last candidate is not live, so the longest below it is the longest
      cases hscan : scanPrefix cfg cache now p m with
      | none =>
        rw [hscan] at ih
        intro n hn
        obtain rfl | hlt := hn.eq_or_lt
        · exact hlive
        · exact ih n (by omega)
      | some chosen =>
        rw [hscan] at ih
        obtain ⟨hn, hkey, hlive', hmax⟩ := ih
        refine ⟨by omega, hkey, hlive', fun k hk hk' => ?_⟩
        obtain rfl | hlt := hk'.eq_or_lt
        · exact hlive
        · exact hmax k hk (by omega)

/-- With a usable pin, the pinned entry is what the fast path selects. -/
lemma PinUsable.pinnedPrefix_eq {h : Key} {c : CachedConv} (hc : PinUsable cfg cache now p h c) :
    pinnedPrefix cfg cache now p (some h) = some (h, c.turnCount) := by
  simp only [pinnedPrefix, hc.lookup, hc.live, hc.turnCount, hc.key, and_self, if_true]

/-- The fast path selects nothing, or it selects the entry of a usable pin. -/
lemma pinnedPrefix_cases (cfg : Config) (cache : Cache) (now : ℕ) (p : Prefix) (pin : Option Key) :
    pinnedPrefix cfg cache now p pin = none ∨
      ∃ h c, pin = some h ∧ PinUsable cfg cache now p h c := by
  cases pin with
  | none => exact .inl rfl
  | some h =>
    cases hget : cache.lookup h with
    | none => exact .inl (by simp only [pinnedPrefix, hget])
    | some c =>
      by_cases hc : PinUsable cfg cache now p h c
      · exact .inr ⟨h, c, rfl, hc⟩
      · refine .inl ?_
        simp only [pinnedPrefix, hget]
        split
        · next hlive => exact if_neg fun hkey => hc ⟨hget, hlive.1, hlive.2, hkey⟩
        · rfl

/-- The selection with the session pin is the one without any session map, the longest live
prefix, exactly when no live entry holds more turns of the request than a usable pin. -/
theorem choosePrefix_pin_iff (cfg : Config) (cache : Cache) (now : ℕ) (p : Prefix)
    (pin : Option Key) :
    (choosePrefix cfg cache now pin p = choosePrefix cfg cache now none p ∧
      LongestLive cfg cache now p p.turns.length (choosePrefix cfg cache now pin p)) ↔
    ¬ Overtaken cfg cache now p pin := by
  have hscan : LongestLive cfg cache now p p.turns.length (choosePrefix cfg cache now none p) :=
    scanPrefix_longestLive _
  constructor
  · rintro ⟨-, hlongest⟩ ⟨h, c, n, rfl, hc, hlt, hn, hlive⟩
    rw [choosePrefix, hc.pinnedPrefix_eq] at hlongest
    rw [hlongest.2.2.2 n hlt hn] at hlive
    cases hlive
  · intro hover
    suffices hlongest : LongestLive cfg cache now p p.turns.length
        (choosePrefix cfg cache now pin p) from ⟨hlongest.unique hscan, hlongest⟩
    obtain hnone | ⟨h, c, rfl, hc⟩ := pinnedPrefix_cases cfg cache now p pin
    · rw [choosePrefix, hnone]
      exact scanPrefix_longestLive _
    · rw [choosePrefix, hc.pinnedPrefix_eq]
      refine ⟨hc.turnCount, hc.key.symm, (pinnedPrefix_eq_some hc.pinnedPrefix_eq).2.2, ?_⟩
      intro k hk hk'
      by_contra hlive
      exact hover ⟨h, c, k, rfl, hc, hk, hk', by simpa using hlive⟩

/-- A session, and a stateless request that continues its transcript further. -/
def overtakingRequests : List (ℕ × InferenceRequest) :=
  [(0, .plain (.persistent "A") [.user "hi"]),
    (1, .plain .stateless [.user "hi", .assistant "a1", .user "more"])]

/-- The session comes back with the whole transcript. -/
def overtakenRequest : InferenceRequest :=
  .plain (.persistent "A")
    [.user "hi", .assistant "a1", .user "more", .assistant "a2", .user "and more"]

/-- The pin of a session makes the slot resume two turns where four are live in the cache. -/
theorem choosePrefix_pin_shadows :
    ¬ (∀ s, (slot demoConfig).Reachable s → NoCollision demoConfig s →
        ∀ i req, s.calls i = some ⟨req, .entered⟩ →
          choosePrefix demoConfig s.shared.cache s.shared.now
              (sessionPin s.shared.sessions req.session) (demoConfig.prefixOf req) =
            choosePrefix demoConfig s.shared.cache s.shared.now none
              (demoConfig.prefixOf req)) := by
  intro hclaim
  have hrun : ∃ s, demoConfig.serveAll demoModel State.init 0 overtakingRequests = some s ∧
      (let t : State := callAt s.calls 2 overtakenRequest s.shared .entered
       (∀ p ∈ t.keyedList demoConfig 3, ∀ q ∈ t.keyedList demoConfig 3,
          demoConfig.key p = demoConfig.key q → p.Same q) ∧
        (choosePrefix demoConfig s.shared.cache s.shared.now
          (sessionPin s.shared.sessions overtakenRequest.session)
          (demoConfig.prefixOf overtakenRequest)).map Prod.snd = some 2 ∧
        (choosePrefix demoConfig s.shared.cache s.shared.now none
          (demoConfig.prefixOf overtakenRequest)).map Prod.snd = some 4) := by
    decide +kernel
  obtain ⟨s, hs, hlist, htwo, hfour⟩ := hrun
  obtain ⟨hreach, hfree⟩ := reachable_serveAll hs
  have harrive : (slot demoConfig).step s (callAt s.calls 2 overtakenRequest s.shared .entered) :=
    .arrive s 2 overtakenRequest (hfree 2 le_rfl)
  have hcol : NoCollision demoConfig (callAt s.calls 2 overtakenRequest s.shared .entered) := by
    refine noCollision_of_keyedList (fun j hj => ?_) hlist
    exact (callAt_of_ne (by omega)).trans (hfree j (show 2 ≤ j by omega))
  have hsame := hclaim _ (hreach.step harrive) hcol 2 overtakenRequest callAt_self
  exact absurd (htwo.symm.trans ((congrArg _ hsame).trans hfour)) (by decide)

end ModelApi.LiteRt
