import ModelApi.LiteRt.Selection

/-!
# Requests that a warm cache covers

A cached prefix may hold every turn of a request that can be sent. The slot resumes it and finds
nothing to send, where it would have served the request with an empty cache.
-/

namespace ModelApi.LiteRt

variable {cfg : Config} {cache : Cache} {now : ℕ} {p : Prefix} {pin : Option Key}

/-- The error of a call that has nothing to send. -/
def NOTHING_TO_SEND : String := "litertlm: nothing to send (suffix has no User/Tool turns)"

/-- The request has a user or a tool turn. -/
def Servable (req : InferenceRequest) : Prop := sendableContents (turnsOf req) ≠ []

/-- Behind the first `n` turns there is no user turn and no tool turn. -/
def Covered (p : Prefix) (n : ℕ) : Prop := sendableContents (p.turns.drop n) = []

/-- The session pin is usable. -/
def HasPin (cfg : Config) (cache : Cache) (now : ℕ) (p : Prefix) (pin : Option Key) : Prop :=
  ∃ h c, pin = some h ∧ PinUsable cfg cache now p h c

/-- The entry of a usable pin, or else some live entry, covers the request. -/
def Exhausted (cfg : Config) (cache : Cache) (now : ℕ) (p : Prefix) (pin : Option Key) : Prop :=
  (∃ h c, pin = some h ∧ PinUsable cfg cache now p h c ∧ Covered p c.turnCount) ∨
    ¬ HasPin cfg cache now p pin ∧
      ∃ n ≤ p.turns.length, liveAt cfg cache now p n = true ∧ Covered p n

lemma Covered.mono {n m : ℕ} (h : Covered p n) (hnm : n ≤ m) : Covered p m := by
  obtain ⟨k, rfl⟩ := Nat.exists_eq_add_of_le hnm
  have hsplit : p.turns.drop n = (p.turns.drop n).take k ++ p.turns.drop (n + k) := by
    rw [← List.drop_drop, List.take_append_drop]
  rw [Covered, hsplit, sendableContents_append] at h
  exact (List.append_eq_nil_iff.mp h).2

/-- A covered request is one whose selected prefix covers it. -/
lemma exhausted_iff :
    Exhausted cfg cache now p pin ↔
      ∃ h n, choosePrefix cfg cache now pin p = some (h, n) ∧ Covered p n := by
  by_cases hpin : HasPin cfg cache now p pin
  · obtain ⟨h, c, rfl, hc⟩ := id hpin
    have hchoose : choosePrefix cfg cache now (some h) p = some (h, c.turnCount) := by
      rw [choosePrefix, hc.pinnedPrefix_eq]
    rw [hchoose]
    constructor
    · rintro (⟨h', c', heq, hc', hcovered⟩ | ⟨hnone, -⟩)
      · cases heq
        obtain rfl : c = c' := Option.some.inj (hc.lookup.symm.trans hc'.lookup)
        exact ⟨h, c.turnCount, rfl, hcovered⟩
      · exact absurd hpin hnone
    · rintro ⟨h', n, heq, hcovered⟩
      cases heq
      exact .inl ⟨h, c, rfl, hc, hcovered⟩
  · have hchoose :
        choosePrefix cfg cache now pin p = scanPrefix cfg cache now p p.turns.length := by
      rcases pinnedPrefix_cases cfg cache now p pin with hnone | ⟨h, c, hpin', hc⟩
      · rw [choosePrefix, hnone]
      · exact absurd ⟨h, c, hpin', hc⟩ hpin
    have hlongest : LongestLive cfg cache now p p.turns.length
        (scanPrefix cfg cache now p p.turns.length) := scanPrefix_longestLive _
    rw [hchoose]
    constructor
    · rintro (⟨h, c, hpin', hc, -⟩ | ⟨-, n, hn, hlive, hcovered⟩)
      · exact absurd ⟨h, c, hpin', hc⟩ hpin
      · cases hscan : scanPrefix cfg cache now p p.turns.length with
        | none =>
          rw [hscan] at hlongest
          rw [hlongest n hn] at hlive
          cases hlive
        | some chosen =>
          obtain ⟨h, m⟩ := chosen
          rw [hscan] at hlongest
          obtain ⟨-, -, -, hmax⟩ := hlongest
          refine ⟨h, m, rfl, hcovered.mono ?_⟩
          by_contra hlt
          rw [hmax n (not_le.mp hlt) hn] at hlive
          cases hlive
    · rintro ⟨h, n, hscan, hcovered⟩
      obtain ⟨hn, -, hlive⟩ := scanPrefix_eq_some hscan
      exact .inr ⟨hpin, n, hn, hlive, hcovered⟩

/-! ### Runs that never resume a covering prefix -/

/-- The step moves no call on whose request the selected prefix covers. -/
def Spares (cfg : Config) (s t : State) : Prop :=
  ∀ i req pin, s.calls i = some ⟨req, .pinRead pin⟩ → t.calls i ≠ s.calls i → Servable req →
    ¬ Exhausted cfg s.shared.cache s.shared.now (cfg.prefixOf req) pin

/-- The slot, in runs of which every step spares. -/
def sparing (cfg : Config) : Lib.Machine State where
  init s := s = State.init
  step s t := Step cfg s t ∧ Spares cfg s t

/-- The text is not that of the error. -/
lemma ne_nothingToSend {front e : String} (h : front.toList.take 9 ≠ NOTHING_TO_SEND.toList.take 9)
    (hlen : 9 ≤ front.toList.length) : front ++ e ≠ NOTHING_TO_SEND := by
  intro heq
  apply h
  rw [← heq, String.toList_append, List.take_append_of_le_length hlen]

/-- What a call knows that has not failed for want of something to send, and will not. -/
def Pc.Spared (req : InferenceRequest) : Pc → Prop
  | .ready _ n                  => sendableContents ((turnsOf req).drop n) ≠ []
  | .unwinding (.err m)         => m ≠ NOTHING_TO_SEND
  | .done (.err m)              => m ≠ NOTHING_TO_SEND
  | _                           => True

lemma turnsOf_ne_nil {req : InferenceRequest} (h : Servable req) : turnsOf req ≠ [] :=
  fun hnil => h (by rw [hnil]; rfl)

/-- One step of a call that the cache does not cover. -/
lemma CallStep.spared {i : ℕ} {req : InferenceRequest} {sh sh' : Shared} {pc pc' : Pc}
    (hstep : CallStep cfg i req sh pc sh' pc') (hreq : Servable req)
    (hpin : ∀ pin, pc = .pinRead pin → ¬ Exhausted cfg sh.cache sh.now (cfg.prefixOf req) pin)
    (hpc : pc.Spared req) : pc'.Spared req := by
  cases hstep with
  | badInput h => exact absurd (by rw [turnsOf, h]) (turnsOf_ne_nil hreq)
  | emptyInput h => exact absurd (by rw [turnsOf, h]) (turnsOf_ne_nil hreq)
  | hit hsel hn hget =>
    intro hcovered
    exact hpin _ rfl (exhausted_iff.mpr ⟨_, _, hsel, hcovered⟩)
  | cloneFails hsel hn hget e => exact ne_nothingToSend (by decide) (by decide)
  | create => exact hreq
  | createFails e =>
    simp only [Pc.Spared]
    cases cfg.systemPrompt req with
    | none => exact ne_nothingToSend (by decide) (by decide)
    | some sys => exact ne_nothingToSend (by decide) (by decide)
  | nothingToSend h => exact absurd h hpc
  | sendFails e => exact ne_nothingToSend (by decide) (by decide)
  | @unwind outcome =>
    cases outcome with
    | ok reply conv => trivial
    | err m => exact hpc
    | panicked => trivial
  | recloneFails e => exact ne_nothingToSend (by decide) (by decide)
  | _ => trivial

/-- In a run of which every step spares, no servable request ever fails so. -/
lemma spared_of_reachable {s : State} (h : (sparing cfg).Reachable s) :
    ∀ i c, s.calls i = some c → Servable c.req → c.pc.Spared c.req := by
  apply h.invariant
  · rintro s rfl i c hc
    cases hc
  · rintro s t ⟨hst, hspares⟩ hs i c hc hreq
    obtain hold | hpc | ⟨pc, hbefore, hstep⟩ := hst.calls_after hc
    · exact hs i c hold hreq
    · rw [hpc]
      trivial
    · refine hstep.spared hreq (fun pin hpin => ?_) (hs i _ hbefore hreq)
      subst hpin
      exact hspares i c.req pin hbefore (hstep.calls_ne hbefore hc) hreq

/-- A call on whose request the selected prefix covers can fail for want of something to send. -/
lemma steps_nothingToSend {s : State} {i : ℕ} {req : InferenceRequest} {pin : Option Key}
    (hi : s.calls i = some ⟨req, .pinRead pin⟩) (hreq : Servable req)
    (h : Exhausted cfg s.shared.cache s.shared.now (cfg.prefixOf req) pin) :
    ∃ t, (slot cfg).Steps s t ∧ t.calls i = some ⟨req, .done (.err NOTHING_TO_SEND)⟩ := by
  obtain ⟨k, n, hsel, hcovered⟩ := exhausted_iff.mp h
  obtain ⟨-, rfl, hlive⟩ := choosePrefix_eq_some hsel
  have hn : 0 < n := by
    apply Nat.pos_of_ne_zero
    rintro rfl
    exact hreq hcovered
  cases hget : s.shared.cache.lookup (cfg.key ((cfg.prefixOf req).take n)) with
  | none =>
    rw [liveAt, hget] at hlive
    cases hlive
  | some entry =>
    obtain ⟨u, hselect, hready⟩ : ∃ u, Step cfg s u ∧
        u.calls i = some ⟨req, .ready entry.conv n⟩ :=
      ⟨_, .call s i hi (.hit hsel hn hget), Function.update_self ..⟩
    exact ⟨_, .head hselect (.single (.call u i hready (.nothingToSend hcovered))),
      Function.update_self ..⟩

/-- In every run in which no prefix that covers a request is resumed for it, no servable request
fails for want of something to send; and in every other state that a run reaches, one can. -/
theorem nothingToSend_iff_exhausted (cfg : Config) :
    (∀ s, (sparing cfg).Reachable s → ∀ i req, Servable req →
      s.calls i ≠ some ⟨req, .done (.err NOTHING_TO_SEND)⟩) ∧
    ∀ s, (slot cfg).Reachable s → ∀ i req pin, s.calls i = some ⟨req, .pinRead pin⟩ →
      Servable req → Exhausted cfg s.shared.cache s.shared.now (cfg.prefixOf req) pin →
      ∃ t, (slot cfg).Reachable t ∧ t.calls i = some ⟨req, .done (.err NOTHING_TO_SEND)⟩ := by
  constructor
  · intro s hs i req hreq hfail
    exact spared_of_reachable hs i _ hfail hreq rfl
  · intro s hs i req pin hi hreq hexhausted
    obtain ⟨t, hsteps, ht⟩ := steps_nothingToSend hi hreq hexhausted
    exact ⟨t, hs.steps hsteps, ht⟩

section Takes

variable {others : ℕ → Option Call} {i : ℕ} {req : InferenceRequest} {sh : Shared}

lemma sparing_arrive (hfree : others i = none) :
    (sparing cfg).step ⟨sh, others⟩ (callAt others i req sh .entered) := by
  refine ⟨.arrive _ i req hfree, fun j req' pin hj hmoved => ?_⟩
  have hji : j ≠ i := by
    rintro rfl
    exact absurd (hfree.symm.trans hj) nofun
  exact absurd (callAt_of_ne hji) hmoved

/-- A call behind every live entry of which something is left to send. -/
lemma sparing_takes (h : ∀ n ≤ (turnsOf req).length,
      liveAt cfg sh.cache sh.now (cfg.prefixOf req) n = true → ¬ Covered (cfg.prefixOf req) n) :
    Takes (sparing cfg) cfg others i req sh := by
  intro sh₁ sh₂ pc pc' hpin hstep
  refine ⟨step_callAt hstep, fun j req' pin hj hmoved hservable hexhausted => ?_⟩
  by_cases hji : j = i
  · subst hji
    rw [callAt_self] at hj
    cases hj
    obtain rfl : sh₁ = sh := hpin pin rfl
    obtain ⟨k, n, hsel, hcovered⟩ := exhausted_iff.mp hexhausted
    obtain ⟨hn, -, hlive⟩ := choosePrefix_eq_some hsel
    exact h n hn hlive hcovered
  · rw [callAt_of_ne hji, callAt_of_ne hji] at hmoved
    exact absurd rfl hmoved

end Takes

/-- A question and its answer, with nothing behind them. -/
def answeredRequest : InferenceRequest := .plain .stateless [.user "hi", .assistant "a1"]

/-- The question has been served, and comes back with its answer. -/
lemma exists_exhausted : ∃ s, (slot demoConfig).Reachable s ∧
    s.calls 1 = some ⟨answeredRequest, .pinRead none⟩ ∧
    Exhausted demoConfig s.shared.cache s.shared.now (demoConfig.prefixOf answeredRequest)
      none := by
  have hrun : ∃ s, demoConfig.serveAll demoModel State.init 0
        [(0, firstRequest)] = some s ∧
      liveAt demoConfig s.shared.cache s.shared.now (demoConfig.prefixOf answeredRequest) 2 =
        true := by
    decide +kernel
  obtain ⟨s, hs, hlive⟩ := hrun
  obtain ⟨hreach, hfree⟩ := reachable_serveAll hs
  have harrive : (slot demoConfig).step s (callAt s.calls 1 answeredRequest s.shared .entered) :=
    .arrive s 1 answeredRequest (hfree 1 le_rfl)
  have hread : (slot demoConfig).step (callAt s.calls 1 answeredRequest s.shared .entered)
      (callAt s.calls 1 answeredRequest s.shared (.pinRead none)) :=
    step_callAt (.readPin rfl (List.cons_ne_nil _ _))
  refine ⟨_, (hreach.step harrive).step hread, callAt_self, .inr ⟨?_, 2, le_rfl, hlive, rfl⟩⟩
  rintro ⟨h, c, hpin, -⟩
  cases hpin

/-- Behind the question that has been served, the further one is served from the warm cache. -/
lemma exists_continued : ∃ s reply conv, (sparing demoConfig).Reachable s ∧
    s.calls 1 = some ⟨continuedRequest, .done (.ok reply conv)⟩ := by
  have hrun : ∃ x, demoConfig.serve demoModel State.init.shared firstRequest = some x ∧
      ∃ y, demoConfig.serve demoModel x.1 continuedRequest = some y ∧
        ∀ n ≤ 3, liveAt demoConfig x.1.cache x.1.now (demoConfig.prefixOf continuedRequest) n =
          true → sendableContents ((turnsOf continuedRequest).drop n) ≠ [] := by
    decide +kernel
  obtain ⟨⟨sh₁, reply₁, conv₁⟩, hserve₁, ⟨sh₂, reply₂, conv₂⟩, hserve₂, hleft⟩ := hrun
  let served := callAt State.init.calls 0 firstRequest sh₁ (.done (.ok reply₁ conv₁))
  -- nothing is live in an empty cache
  have hfirst : (sparing demoConfig).Steps State.init served :=
    steps_serve (sparing_takes fun n _ hlive => by cases hlive) (sparing_arrive rfl) hserve₁
  have htakes : Takes (sparing demoConfig) demoConfig served.calls 1 continuedRequest sh₁ := by
    apply sparing_takes
    exact hleft
  have hfurther := steps_serve htakes (sparing_arrive (callAt_of_ne Nat.one_ne_zero)) hserve₂
  exact ⟨_, _, _, ⟨State.init, rfl, hfirst.trans hfurther⟩, callAt_self⟩

/-- A request of which the warm cache leaves something to send is served, and one that the cache
covers fails. -/
theorem nothingToSend_iff_exhausted_demo :
    (∃ s reply conv, (sparing demoConfig).Reachable s ∧
      s.calls 1 = some ⟨continuedRequest, .done (.ok reply conv)⟩ ∧
      s.calls 1 ≠ some ⟨continuedRequest, .done (.err NOTHING_TO_SEND)⟩) ∧
    ∃ t, (slot demoConfig).Reachable t ∧
      t.calls 1 = some ⟨answeredRequest, .done (.err NOTHING_TO_SEND)⟩ := by
  constructor
  · obtain ⟨s, reply, conv, hreach, hdone⟩ := exists_continued
    have hservable : Servable continuedRequest := List.cons_ne_nil _ _
    exact ⟨s, reply, conv, hreach, hdone,
      (nothingToSend_iff_exhausted demoConfig).1 s hreach 1 continuedRequest hservable⟩
  · obtain ⟨s, hreach, hi, hexhausted⟩ := exists_exhausted
    have hservable : Servable answeredRequest := List.cons_ne_nil _ _
    exact (nothingToSend_iff_exhausted demoConfig).2 s hreach 1 answeredRequest none hi hservable
      hexhausted

/-- A request that an empty cache serves fails when its turns are cached. -/
theorem warm_cache_fails :
    ¬ ∀ s, (slot demoConfig).Reachable s → ∀ i req, Servable req →
      s.calls i ≠ some ⟨req, .done (.err NOTHING_TO_SEND)⟩ := by
  intro h
  obtain ⟨s, hreach, hi, hexhausted⟩ := exists_exhausted
  have hservable : Servable answeredRequest := List.cons_ne_nil _ _
  obtain ⟨t, hsteps, ht⟩ := steps_nothingToSend hi hservable hexhausted
  exact h t (hreach.steps hsteps) 1 answeredRequest hservable ht

end ModelApi.LiteRt
