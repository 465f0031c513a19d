import ModelApi.LiteRt.Serve

/-!
# Eviction

How many entries the prefix cache holds, which one an insertion evicts, and that a request which
fails leaves the keys of the cache and the session pins alone.
-/

namespace ModelApi.LiteRt

/-! ### The iteration order of the map -/

/-- `cache.iter().min_by_key(|(_, c)| c.last_used)`, for a map that is iterated in the given order:
the first of the least entries. -/
def minByLastUsed (order : List ((_ : Key) × CachedConv)) : Option ((_ : Key) × CachedConv) :=
  order.argmin fun e => e.2.lastUsed

/-- The re-cache section, for a map that is iterated in the given order. -/
def evictInsert (cacheSize : ℕ) (order : List ((_ : Key) × CachedConv)) (cache : Cache) (h : Key)
    (c : CachedConv) : Cache :=
  if cacheSize ≤ cache.keys.length ∧ h ∉ cache then
    match minByLastUsed order with
    | some e => (cache.erase e.1).insert h c
    | none   => cache.insert h c
  else cache.insert h c

lemma mem_entries_of_perm {order : List ((_ : Key) × CachedConv)} {cache : Cache}
    (horder : order.Perm cache.entries) {k : Key} {e : CachedConv} :
    cache.lookup k = some e ↔ ⟨k, e⟩ ∈ order := by
  rw [horder.mem_iff]
  exact AList.mem_lookup_iff

/-- Iterating in an order that starts with the victim. -/
lemma exists_order_of_least {cache : Cache} {k : Key} {e : CachedConv}
    (hk : cache.lookup k = some e)
    (hleast : ∀ k' e', cache.lookup k' = some e' → e.lastUsed ≤ e'.lastUsed) :
    ∃ order, order.Perm cache.entries ∧ minByLastUsed order = some ⟨k, e⟩ := by
  obtain ⟨before, behind, hsplit⟩ := List.append_of_mem (AList.mem_lookup_iff.mp hk)
  refine ⟨⟨k, e⟩ :: (before ++ behind), hsplit ▸ List.perm_middle.symm, ?_⟩
  rw [minByLastUsed, List.argmin_eq_some_iff]
  refine ⟨List.mem_cons_self, fun e' he' => ?_, fun e' he' hle => ?_⟩
  · refine hleast e'.1 e'.2 (AList.mem_lookup_iff.mpr ?_)
    rw [hsplit]
    exact List.perm_middle.mem_iff.mpr he'
  · rw [List.idxOf_cons_self]
    exact Nat.zero_le _

/-- What an insertion may leave is what it leaves for some order of the map. -/
lemma insertLru_iff_evictInsert {cacheSize : ℕ} (hsize : 0 < cacheSize) {cache cache' : Cache}
    {h : Key} {c : CachedConv} :
    InsertLru cacheSize cache h c cache' ↔
      ∃ order, order.Perm cache.entries ∧ evictInsert cacheSize order cache h c = cache' := by
  unfold InsertLru evictInsert
  split
  · next hfull =>
    constructor
    · rintro ⟨k, e, hk, hleast, rfl⟩
      obtain ⟨order, horder, hmin⟩ := exists_order_of_least hk hleast
      exact ⟨order, horder, by rw [hmin]⟩
    · rintro ⟨order, horder, rfl⟩
      cases hmin : minByLastUsed order with
      | none =>
        rw [minByLastUsed, List.argmin_eq_none] at hmin
        rw [hmin, List.nil_perm] at horder
        have hempty : cache.keys.length = 0 := by rw [AList.keys, horder]; rfl
        omega
      | some e =>
        refine ⟨e.1, e.2, (mem_entries_of_perm horder).mpr (List.argmin_mem hmin), ?_, rfl⟩
        intro k' e' hk'
        exact List.le_of_mem_argmin (f := fun e : (_ : Key) × CachedConv => e.2.lastUsed)
          ((mem_entries_of_perm horder).mp hk') hmin
  · constructor
    · rintro rfl
      exact ⟨cache.entries, .refl _, rfl⟩
    · rintro ⟨_, -, rfl⟩
      rfl

/-! ### The number of entries -/

section Length

variable {cache cache' : Cache} {h k : Key} {c e : CachedConv}

lemma mem_of_lookup {cache : Cache} {h : Key} {e : CachedConv} (hget : cache.lookup h = some e) :
    h ∈ cache :=
  AList.lookup_isSome.mp (Option.isSome_of_eq_some hget)

lemma length_keys_insert_of_mem (hk : k ∈ cache) :
    (cache.insert k c).keys.length = cache.keys.length := by
  rw [AList.keys_insert, List.length_cons, List.length_erase_of_mem hk]
  have hpos : 0 < cache.keys.length := List.length_pos_of_mem hk
  omega

lemma length_keys_insert_of_notMem (hk : k ∉ cache) :
    (cache.insert k c).keys.length = cache.keys.length + 1 := by
  rw [AList.keys_insert, List.length_cons, List.erase_of_not_mem hk]

lemma length_keys_erase (hk : k ∈ cache) :
    (cache.erase k).keys.length = cache.keys.length - 1 := by
  rw [AList.keys_erase, List.length_erase_of_mem hk]

lemma InsertLru.length_le {cacheSize : ℕ} (hins : InsertLru cacheSize cache h c cache')
    (hcache : cache.keys.length ≤ cacheSize) : cache'.keys.length ≤ cacheSize := by
  rw [InsertLru] at hins
  split at hins
  · next hfull =>
    obtain ⟨k, e, hk, -, rfl⟩ := hins
    have hmem := mem_of_lookup hk
    have hpos : 0 < cache.keys.length := List.length_pos_of_mem hmem
    have hnew : h ∉ cache.erase k := fun hh => hfull.2 (AList.mem_erase.mp hh).2
    rw [length_keys_insert_of_notMem hnew, length_keys_erase hmem]
    omega
  · next hroom =>
    subst hins
    by_cases hh : h ∈ cache
    · rw [length_keys_insert_of_mem hh]
      exact hcache
    · rw [length_keys_insert_of_notMem hh]
      have hlt : ¬ cacheSize ≤ cache.keys.length := fun hle => hroom ⟨hle, hh⟩
      omega

end Length

/-! ### The moves of a call -/

variable {cfg : Config}

/-- Call `i` moves, with the others where they are. -/
def Moves (cfg : Config) (i : ℕ) (s t : State) : Prop :=
  ∃ req pc pc', s.calls i = some ⟨req, pc⟩ ∧ CallStep cfg i req s.shared pc t.shared pc' ∧
    t.calls = Function.update s.calls i (some ⟨req, pc'⟩)

/-- Call `i` moves by inserting the entry `c` under the key `k`. -/
def Inserts (cfg : Config) (i : ℕ) (k : Key) (c : CachedConv) (s t : State) : Prop :=
  Moves cfg i s t ∧ ∃ req conv last,
    s.calls i = some ⟨req, .recloned conv c.conv last⟩ ∧
      k = cfg.key ((cfg.prefixOf req).withReply last) ∧
      c = ⟨c.conv, ((cfg.prefixOf req).withReply last).turns.length, s.shared.now⟩

lemma Moves.step {i : ℕ} {s t : State} (h : Moves cfg i s t) : (slot cfg).step s t := by
  obtain ⟨req, pc, pc', hi, hstep, ht⟩ := h
  have hst : Step cfg s ⟨t.shared, Function.update s.calls i (some ⟨req, pc'⟩)⟩ :=
    .call s i hi hstep
  rwa [← ht] at hst

/-- The only move from there is the insertion. -/
lemma CallStep.insertLru {i : ℕ} {req : InferenceRequest} {sh sh' : Shared} {pc' : Pc}
    {conv toCache : Conversation} {last : String}
    (h : CallStep cfg i req sh (.recloned conv toCache last) sh' pc') :
    InsertLru cfg.cacheSize sh.cache (cfg.key ((cfg.prefixOf req).withReply last))
      ⟨toCache, ((cfg.prefixOf req).withReply last).turns.length, sh.now⟩ sh'.cache := by
  cases h with
  | insert h => exact h

lemma Inserts.insertLru {i : ℕ} {k : Key} {c : CachedConv} {s t : State}
    (h : Inserts cfg i k c s t) :
    InsertLru cfg.cacheSize s.shared.cache k c t.shared.cache := by
  obtain ⟨⟨req, pc, pc', hi, hstep, -⟩, req', conv, last, hi', rfl, hc⟩ := h
  obtain ⟨rfl, rfl⟩ := Call.mk.inj (Option.some.inj (hi.symm.trans hi'))
  rw [hc]
  exact hstep.insertLru

/-- The re-cached conversation is in the cache, or the call has returned its reply. -/
def Pc.Committed : Pc → Prop
  | .inserted _ _ _ => True
  | .done (.ok _ _) => True
  | _               => False

lemma CallStep.committed {i : ℕ} {req : InferenceRequest} {sh sh' : Shared} {pc pc' : Pc}
    (h : CallStep cfg i req sh pc sh' pc') (hpc : pc.Committed) : pc'.Committed := by
  cases h with
  | writePin => trivial
  | noPin => trivial
  | _ => exact absurd hpc id

/-- The same keys. -/
def SameKeys (cache cache' : Cache) : Prop := ∀ k, k ∈ cache' ↔ k ∈ cache

lemma sameKeys_touch {cache : Cache} {h : Key} {c e : CachedConv} (hget : cache.lookup h = some e) :
    SameKeys cache (cache.insert h c) := by
  have hmem := mem_of_lookup hget
  intro k
  rw [AList.mem_insert]
  exact or_iff_right_of_imp fun hk => hk ▸ hmem

/-- What a move does to the keys and the pins: nothing before the insertion. -/
lemma CallStep.sameKeys {i : ℕ} {req : InferenceRequest} {sh sh' : Shared} {pc pc' : Pc}
    (h : CallStep cfg i req sh pc sh' pc') :
    pc'.Committed ∨ SameKeys sh.cache sh'.cache ∧ sh'.sessions = sh.sessions := by
  cases h with
  | hit _ _ hget => exact .inr ⟨sameKeys_touch hget, rfl⟩
  | cloneFails _ _ hget => exact .inr ⟨sameKeys_touch hget, rfl⟩
  | insert => exact .inl trivial
  | writePin => exact .inl trivial
  | noPin => exact .inl trivial
  | _ => exact .inr ⟨fun _ => .rfl, rfl⟩

/-- No call makes the cache outgrow its size. -/
lemma CallStep.length_le {i : ℕ} {req : InferenceRequest} {sh sh' : Shared} {pc pc' : Pc}
    (h : CallStep cfg i req sh pc sh' pc') (hcache : sh.cache.keys.length ≤ cfg.cacheSize) :
    sh'.cache.keys.length ≤ cfg.cacheSize := by
  cases h with
  | hit _ _ hget =>
    rwa [length_keys_insert_of_mem (mem_of_lookup hget)]
  | cloneFails _ _ hget =>
    rwa [length_keys_insert_of_mem (mem_of_lookup hget)]
  | insert hins => exact hins.length_le hcache
  | _ => exact hcache

lemma length_le_cacheSize {s : State} (hs : (slot cfg).Reachable s) :
    s.shared.cache.keys.length ≤ cfg.cacheSize := by
  refine hs.invariant (P := fun s => s.shared.cache.keys.length ≤ cfg.cacheSize) ?_ ?_
  · rintro _ rfl
    exact Nat.zero_le _
  · intro s t (hst : Step cfg s t) hlen
    obtain ⟨d, hd⟩ | ⟨i, req, pc, pc', -, -, hstep⟩ := hst.shared
    · rwa [hd]
    · exact hstep.length_le hlen

/-- A call that has committed does not fail any more. -/
lemma committed_of_steps {s t : State} (hst : (slot cfg).Steps s t) {i : ℕ} {c : Call}
    (hs : s.calls i = some c) (hc : c.pc.Committed) :
    ∃ c', t.calls i = some c' ∧ c'.pc.Committed := by
  induction hst with
  | refl => exact ⟨c, hs, hc⟩
  | tail _ hst ih =>
    obtain ⟨c', hi, hc'⟩ := ih
    obtain ⟨pc', hi', rfl | hstep⟩ := Step.calls_before hst hi
    · exact ⟨_, hi', hc'⟩
    · exact ⟨_, hi', hstep.committed hc'⟩

/-- An insertion of a new key into a full cache evicts one of the least recently used entries. -/
lemma InsertLru.evicts {cacheSize : ℕ} {cache cache' : Cache} {k : Key} {c : CachedConv}
    (hins : InsertLru cacheSize cache k c cache') (hfull : cacheSize ≤ cache.keys.length)
    (hk : k ∉ cache) :
    ∃ old e, cache.lookup old = some e ∧
      (∀ k' e', cache.lookup k' = some e' → e.lastUsed ≤ e'.lastUsed) ∧
      cache'.lookup old = none ∧
      ∀ k', k' ≠ k → k' ≠ old → cache'.lookup k' = cache.lookup k' := by
  rw [InsertLru, if_pos ⟨hfull, hk⟩] at hins
  obtain ⟨old, e, hold, hleast, rfl⟩ := hins
  have hne : old ≠ k := by
    rintro rfl
    exact hk (mem_of_lookup hold)
  refine ⟨old, e, hold, hleast, ?_, fun k' hk' hko => ?_⟩
  · rw [AList.lookup_insert_ne hne, AList.lookup_erase]
  · rw [AList.lookup_insert_ne hk', AList.lookup_erase_ne hko]

/-- Every other insertion evicts none. -/
lemma InsertLru.keeps {cacheSize : ℕ} {cache cache' : Cache} {k : Key} {c : CachedConv}
    (hins : InsertLru cacheSize cache k c cache')
    (hroom : cache.keys.length < cacheSize ∨ k ∈ cache) {k' : Key} (hk' : k' ≠ k) :
    cache'.lookup k' = cache.lookup k' := by
  have hnot : ¬ (cacheSize ≤ cache.keys.length ∧ k ∉ cache) := by
    rintro ⟨hle, hk⟩
    exact hroom.elim (fun hlt => absurd hle (not_le_of_gt hlt)) hk
  rw [InsertLru, if_neg hnot] at hins
  rw [hins, AList.lookup_insert_ne hk']

lemma InsertLru.inserted {cacheSize : ℕ} {cache cache' : Cache} {k : Key} {c : CachedConv}
    (hins : InsertLru cacheSize cache k c cache') : cache'.lookup k = some c := by
  rw [InsertLru] at hins
  split at hins
  · obtain ⟨_, _, -, -, rfl⟩ := hins
    exact AList.lookup_insert _
  · subst hins
    exact AList.lookup_insert _

/-- In every reachable state the cache is not larger than its size; whatever inserts into it then
evicts one least recently used entry if the key is new and the cache full, and else none; and a
call that moves and then fails has left the keys and the pins as they were. -/
theorem prefix_cache_lru {s : State} (hs : (slot cfg).Reachable s) :
    s.shared.cache.keys.length ≤ max cfg.cacheSizeArg 1 ∧
    (∀ i k c t, Inserts cfg i k c s t →
      t.shared.cache.lookup k = some c ∧
      (k ∉ s.shared.cache → max cfg.cacheSizeArg 1 ≤ s.shared.cache.keys.length →
        ∃ old e, s.shared.cache.lookup old = some e ∧
          (∀ k' e', s.shared.cache.lookup k' = some e' → e.lastUsed ≤ e'.lastUsed) ∧
          t.shared.cache.lookup old = none ∧
          ∀ k', k' ≠ k → k' ≠ old → t.shared.cache.lookup k' = s.shared.cache.lookup k') ∧
      (s.shared.cache.keys.length < max cfg.cacheSizeArg 1 ∨ k ∈ s.shared.cache →
        ∀ k', k' ≠ k → t.shared.cache.lookup k' = s.shared.cache.lookup k')) ∧
    ∀ i t u req message, Moves cfg i s t → (slot cfg).Steps t u →
      u.calls i = some ⟨req, .done (.err message)⟩ →
        SameKeys s.shared.cache t.shared.cache ∧ t.shared.sessions = s.shared.sessions := by
  refine ⟨length_le_cacheSize hs, fun i k c t hins => ?_, ?_⟩
  · have hlru := hins.insertLru
    exact ⟨hlru.inserted, fun hk hfull => hlru.evicts hfull hk, fun hroom k' => hlru.keeps hroom⟩
  · rintro i t u req message ⟨req', pc, pc', -, hstep, ht⟩ htu hu
    obtain hcommitted | ⟨hkeys, hsessions⟩ := hstep.sameKeys
    · have hi : t.calls i = some ⟨req', pc'⟩ := by rw [ht, Function.update_self]
      obtain ⟨c', hc', hcommitted'⟩ := committed_of_steps htu hi hcommitted
      obtain rfl := Option.some.inj (hu.symm.trans hc')
      exact absurd hcommitted' id
    · exact ⟨hkeys, hsessions⟩

/-- A call that has its copy can insert it. -/
lemma inserts_callAt (others : ℕ → Option Call) (i : ℕ) (req : InferenceRequest) (sh : Shared)
    (conv toCache : Conversation) (last : String) :
    let full := (cfg.prefixOf req).withReply last
    let c : CachedConv := ⟨toCache, full.turns.length, sh.now⟩
    Inserts cfg i (cfg.key full) c (callAt others i req sh (.recloned conv toCache last))
      (callAt others i req { sh with cache := insertLru cfg.cacheSize sh.cache (cfg.key full) c }
        (.inserted conv (cfg.key full) last)) := by
  have hsize : 0 < cfg.cacheSize := lt_max_of_lt_right Nat.one_pos
  refine ⟨⟨req, _, _, callAt_self, .insert (insertLru_spec hsize ..), ?_⟩,
    req, conv, last, callAt_self, rfl, rfl⟩
  exact (Function.update_idem ..).symm

/-- A cache for one entry. -/
def tinyConfig : Config := { demoConfig with cacheSizeArg := 0 }

def secondQuestion : InferenceRequest := .plain .stateless [.user "yo"]

/-- A second conversation takes the place of the first one. -/
theorem prefix_cache_lru_demo : ∃ s t k c old e, (slot tinyConfig).Reachable s ∧
    Inserts tinyConfig 1 k c s t ∧ s.shared.cache.lookup old = some e ∧
      t.shared.cache.lookup k = some c ∧ t.shared.cache.lookup old = none := by
  have hrun : ∃ s, tinyConfig.serveAll demoModel State.init 0
        [(0, .plain .stateless [.user "hi"])] = some s ∧
      ∃ w, w = tinyConfig.working s.shared secondQuestion ∧
        sendableContents ((turnsOf secondQuestion).drop w.2.1) ≠ [] ∧
        tinyConfig.key ((tinyConfig.prefixOf secondQuestion).withReply (replay demoModel w.1 ""
          (sendableContents ((turnsOf secondQuestion).drop w.2.1))).2) ∉ w.2.2 ∧
        1 ≤ w.2.2.keys.length := by
    simp only [exists_eq_left]
    decide +kernel
  obtain ⟨s₀, hs₀, ⟨conv, n, cache⟩, hworking, hmsgs, hnew, hfull⟩ := hrun
  obtain ⟨hreach, hfree⟩ := reachable_serveAll hs₀
  have harrive : (slot tinyConfig).step s₀
      (callAt s₀.calls 1 secondQuestion s₀.shared .entered) :=
    .arrive s₀ 1 secondQuestion (hfree 1 le_rfl)
  have hgenerated := hreach.steps (steps_generated demoModel
    (slot_takes s₀.calls 1 secondQuestion s₀.shared) harrive hworking.symm hmsgs)
  have hrecloned := hgenerated.step (step_callAt .reclone)
  obtain ⟨-, heach, -⟩ := prefix_cache_lru hrecloned
  obtain ⟨hinserted, hevicts, -⟩ := heach _ _ _ _ (inserts_callAt ..)
  obtain ⟨old, e, hold, -, hgone, -⟩ := hevicts hnew hfull
  exact ⟨_, _, _, _, old, e, hrecloned, inserts_callAt .., hold, hinserted, hgone⟩

end ModelApi.LiteRt
