import ModelApi.Llama.Concurrent

/-!
# What the context has room for

No request clears the session, so that its context is used up once and for all: the prompts that a
slot answers in its whole life fit into the context together, and the slot refuses every request
once the position is at its end.
-/

namespace ModelApi.Llama

open Lib Gemma Server

variable {Token N : Type}

namespace Session

variable {llama : LlamaCpp Token} {s t : Session Token} {tokens : List Token}

/-- The position is at most one behind the context, and an `i32` all the same. -/
structure Within (s : Session Token) : Prop where
  nonneg : 0 ≤ s.nCur.toInt
  le : s.nCur.toInt ≤ s.maxSeqLen.toNat + 1
  fits : s.maxSeqLen.toNat + 1 < 2 ^ 31

lemma Within.coe_asUsize (h : s.Within) : (asUsize s.nCur : ℤ) = s.nCur.toInt := by
  have := h.nonneg
  have := h.le
  have := h.fits
  rw [asUsize]
  omega

lemma Within.asUsize_le (h : s.Within) : asUsize s.nCur ≤ s.maxSeqLen.toNat + 1 := by
  have := h.coe_asUsize
  have := h.le
  omega

lemma within_fresh (batchCapacity : ℕ) (capacity_pos : 0 < batchCapacity) {maxSeqLen : UInt32}
    (h : maxSeqLen.toNat + 1 < 2 ^ 31) :
    (fresh batchCapacity capacity_pos maxSeqLen : Session Token).Within :=
  ⟨le_rfl, Int.natCast_nonneg (maxSeqLen.toNat + 1), h⟩

/-! ### What moves the position -/

lemma nCur_prefillLoop (startPos fuel i : ℕ) (s : Session Token) :
    (prefillLoop llama tokens startPos fuel i s).2.nCur = s.nCur := by
  induction fuel generalizing i s with
  | zero => rfl
  | succ fuel ih =>
    by_cases hi : i < tokens.length
    · rw [prefillLoop_succ hi]
      cases llama.refuses s.kv (chunkAt s tokens startPos i) with
      | some e => rfl
      | none => exact ih _ _
    · rw [prefillLoop, if_neg hi]

lemma nCur_prefill_error {e : String} (h : prefill llama tokens s = (.error e, t)) :
    t.nCur = s.nCur := by
  have hloop : (prefillLoop llama tokens (asUsize s.nCur) tokens.length 0 s).2.nCur = s.nCur :=
    nCur_prefillLoop ..
  rw [prefill] at h
  by_cases hnil : tokens = []
  · rw [if_pos hnil] at h
    cases h
    rfl
  · rw [if_neg hnil] at h
    by_cases hroom : s.maxSeqLen.toNat ≤ (asUsize s.nCur + tokens.length) % 2 ^ 64
    · simp only [if_pos hroom] at h
      cases h
      rfl
    · simp only [if_neg hroom] at h
      cases hs : prefillLoop llama tokens (asUsize s.nCur) tokens.length 0 s with
      | mk result u =>
        rw [hs] at h hloop
        cases result <;> cases h
        exact hloop

/-- A prompt that gets in moves the position by its length, and stays within the context. -/
lemma nCur_prefill_ok {n : Int32} (hwithin : s.Within) (hlen : tokens.length < 2 ^ 63)
    (h : prefill llama tokens s = (.ok n, t)) :
    tokens ≠ [] ∧ t.nCur.toInt = s.nCur.toInt + tokens.length ∧
      t.nCur.toInt < s.maxSeqLen.toNat := by
  have hpos := hwithin.coe_asUsize
  have hle := hwithin.asUsize_le
  have hfits := hwithin.fits
  have hmod : (asUsize s.nCur + tokens.length) % 2 ^ 64 = asUsize s.nCur + tokens.length :=
    Nat.mod_eq_of_lt (by omega)
  rw [prefill] at h
  by_cases hnil : tokens = []
  · rw [if_pos hnil] at h
    cases h
  · rw [if_neg hnil] at h
    simp only [hmod] at h
    by_cases hroom : s.maxSeqLen.toNat ≤ asUsize s.nCur + tokens.length
    · rw [if_pos hroom] at h
      cases h
    · rw [if_neg hroom] at h
      cases hs : prefillLoop llama tokens (asUsize s.nCur) tokens.length 0 s with
      | mk result u =>
        rw [hs] at h
        cases result <;> cases h
        have htoInt : (asI32 (asUsize s.nCur + tokens.length)).toInt =
            asUsize s.nCur + tokens.length := by
          rw [toInt_asI32 (by unfold Fits; omega)]
          push_cast
          rfl
        exact ⟨hnil, by simp only [htoInt, hpos], by simp only [htoInt]; omega⟩

/-- A token moves the position by one, also one that is refused at the end of the context. -/
lemma nCur_pushToken (hwithin : s.Within) (hle : s.nCur.toInt ≤ s.maxSeqLen.toNat) (token : Token) :
    (pushToken llama token s).2.nCur.toInt = s.nCur.toInt + 1 := by
  have hfits := hwithin.fits
  have hpos := hwithin.coe_asUsize
  have hnCur : s.nCur = asI32 (asUsize s.nCur) :=
    Int32.toInt.inj (by rw [toInt_asI32 (by unfold Fits; omega), hpos])
  have hsucc : asI32 (asUsize s.nCur) + 1 = asI32 (asUsize s.nCur + 1) :=
    (Int32.ofNat_add (asUsize s.nCur) 1).symm
  have htoInt : (s.nCur + 1).toInt = s.nCur.toInt + 1 := by
    rw [← hpos, hnCur, hsucc, toInt_asI32 (by unfold Fits; omega), ← hnCur]
    push_cast
    rfl
  rw [pushToken_eq]
  cases llama.refuses s.kv [⟨token, s.nCur, true⟩] with
  | some e => exact htoInt
  | none => exact htoInt

/-- A token that is committed was within the context. -/
lemma lt_of_pushToken_ok (hbounded : Bounded llama s.maxSeqLen) {token : Token}
    (h : pushToken llama token s = (.ok (), t)) : s.nCur.toInt < s.maxSeqLen.toNat := by
  rw [pushToken_eq] at h
  cases hrefuses : llama.refuses s.kv [⟨token, s.nCur, true⟩] with
  | some e =>
    rw [hrefuses] at h
    cases h
  | none =>
    by_contra hge
    exact hbounded s.kv [⟨token, s.nCur, true⟩] _ List.mem_cons_self (not_lt.mp hge) hrefuses

/-- The position counts the tokens produced, and never leaves the context by more than one. -/
lemma nCur_generateLoop (hbounded : Bounded llama s.maxSeqLen) (hwithin : s.Within)
    (hle : s.nCur.toInt ≤ s.maxSeqLen.toNat) (turns : ℕ) (produced : List Token) :
    (generateLoop llama turns produced s).2.Within ∧
      (generateLoop llama turns produced s).2.nCur.toInt + produced.length =
        s.nCur.toInt + (generateLoop llama turns produced s).1.length := by
  induction turns generalizing s produced with
  | zero => exact ⟨hwithin, rfl⟩
  | succ turns ih =>
    rw [generateLoop]
    cases step llama s with
    | none => exact ⟨hwithin, rfl⟩
    | some token =>
      have hnCur : (pushToken llama token s).2.nCur.toInt = s.nCur.toInt + 1 :=
        nCur_pushToken hwithin hle token
      have hmax : (pushToken llama token s).2.maxSeqLen = s.maxSeqLen := maxSeqLen_pushToken token s
      have hfits := hwithin.fits
      have hnonneg := hwithin.nonneg
      simp only
      cases hpush : pushToken llama token s with
      | mk result t =>
        rw [hpush] at hnCur hmax
        simp only at hnCur hmax
        have hwithin' : t.Within := ⟨by omega, by rw [hmax]; omega, by rw [hmax]; omega⟩
        cases result with
        | error e =>
          simp only [List.length_append, List.length_singleton]
          exact ⟨hwithin', by push_cast; omega⟩
        | ok _ =>
          have hlt := lt_of_pushToken_ok hbounded hpush
          have hbounded' : Bounded llama t.maxSeqLen := by rwa [hmax]
          obtain ⟨hwithin'', heq⟩ :=
            ih hbounded' hwithin' (by rw [hmax]; omega) (produced ++ [token])
          rw [List.length_append, List.length_singleton] at heq
          push_cast at heq
          have hcount : (generateLoop llama turns (produced ++ [token]) t).2.nCur.toInt +
              produced.length =
                s.nCur.toInt +
                  (generateLoop llama turns (produced ++ [token]) t).1.length := by omega
          exact ⟨hwithin'', hcount⟩

/-- A request that is answered moves the position by its prompt and its answer. One that is refused
does not move it. -/
lemma nCur_generateRaw (hbounded : Bounded llama s.maxSeqLen) (hwithin : s.Within)
    (hlen : tokens.length < 2 ^ 63) (maxTokens : ℕ) :
    (generateRaw llama tokens maxTokens s).2.Within ∧
      match (generateRaw llama tokens maxTokens s).1 with
      | .error _   => (generateRaw llama tokens maxTokens s).2.nCur = s.nCur
      | .ok answer => tokens ≠ [] ∧ s.nCur.toInt + tokens.length < s.maxSeqLen.toNat ∧
        (generateRaw llama tokens maxTokens s).2.nCur.toInt =
          s.nCur.toInt + tokens.length + answer.length := by
  have hmax : (prefill llama tokens s).2.maxSeqLen = s.maxSeqLen := maxSeqLen_prefill s
  rw [generateRaw]
  cases hs : prefill llama tokens s with
  | mk result t =>
    rw [hs] at hmax
    simp only at hmax
    cases result with
    | error e =>
      have hnCur := nCur_prefill_error hs
      refine ⟨⟨?_, ?_, ?_⟩, hnCur⟩
      · simpa only [hnCur] using hwithin.nonneg
      · simpa only [hnCur, hmax] using hwithin.le
      · simpa only [hmax] using hwithin.fits
    | ok n =>
      obtain ⟨hne, hnCur, hlt⟩ := nCur_prefill_ok hwithin hlen hs
      have hnonneg := hwithin.nonneg
      have hfits := hwithin.fits
      have hwithin' : t.Within := ⟨by omega, by rw [hmax]; omega, by rw [hmax]; omega⟩
      have hbounded' : Bounded llama t.maxSeqLen := by rwa [hmax]
      obtain ⟨hwithin'', heq⟩ :=
        nCur_generateLoop hbounded' hwithin' (by rw [hmax]; omega) maxTokens []
      simp only [List.length_nil] at heq
      exact ⟨hwithin'', hne, by omega, by simp only; omega⟩

end Session

namespace LlamaSlot

variable {slot : LlamaSlot Token N} {s t : Session Token}

/-- The number of tokens of a prompt. -/
def promptTokens (slot : LlamaSlot Token N) (prompt : String) : ℕ :=
  match slot.tokenize prompt true with
  | .ok tokens => tokens.length
  | .error _   => 0

/-- The number of tokens of the prompts that were answered. -/
def answeredTokens : List (slot.Job × Except String String) → ℕ
  | []                         => 0
  | (job, .ok _) :: jobs       => slot.promptTokens job.prompt + answeredTokens jobs
  | (_, .error _) :: jobs      => answeredTokens jobs

/-- No prompt has more tokens than a vector holds. -/
def Vectors (slot : LlamaSlot Token N) : Prop :=
  ∀ prompt tokens, slot.tokenize prompt true = .ok tokens → tokens.length < 2 ^ 63

/-- What a prompt that is too long is refused with. -/
def exceedsContext (len pos maxSeqLen : ℕ) : String :=
  s!"prompt {len} tokens at pos {pos} exceeds context " ++ s!"{maxSeqLen}"

/-- A request under the mutex: what it does to the position, and to the room that is left. -/
lemma nCur_generate (hbounded : Session.Bounded slot.llama s.maxSeqLen) (hvectors : slot.Vectors)
    (hwithin : s.Within) (prompt : String) (maxTokens : ℕ) :
    (slot.generate prompt maxTokens s).2.Within ∧
      match (slot.generate prompt maxTokens s).1 with
      | .error _ => (slot.generate prompt maxTokens s).2.nCur = s.nCur
      | .ok _    => 0 < slot.promptTokens prompt ∧
        s.nCur.toInt + slot.promptTokens prompt < s.maxSeqLen.toNat ∧
        s.nCur.toInt + slot.promptTokens prompt ≤
          (slot.generate prompt maxTokens s).2.nCur.toInt := by
  rw [generate, promptTokens]
  cases htokens : slot.tokenize prompt true with
  | error e => exact ⟨hwithin, rfl⟩
  | ok tokens =>
    have hraw :=
      Session.nCur_generateRaw hbounded hwithin (hvectors prompt tokens htokens) maxTokens
    simp only
    cases hs : Session.generateRaw slot.llama tokens maxTokens s with
    | mk result t =>
      rw [hs] at hraw
      obtain ⟨hwithin', hmoves⟩ := hraw
      cases result with
      | error e => exact ⟨hwithin', hmoves⟩
      | ok answer =>
        obtain ⟨hne, hlt, hnCur⟩ := hmoves
        simp only at hnCur
        exact ⟨hwithin', List.length_pos_iff.mpr hne, hlt, by simp only; omega⟩

lemma maxSeqLen_generate (prompt : String) (maxTokens : ℕ) (s : Session Token) :
    (slot.generate prompt maxTokens s).2.maxSeqLen = s.maxSeqLen := by
  cases htokens : slot.tokenize prompt true with
  | error e => rw [generate_snd_of_error htokens]
  | ok tokens =>
    rw [generate_snd htokens]
    exact Session.maxSeqLen_generateRaw _ s

/-! ### Whole lives -/

/-- The number of requests that were answered. -/
def answered (jobs : List (slot.Job × Except String String)) : ℕ := jobs.countP fun e => e.2.isOk

section Appended

variable (jobs : List (slot.Job × Except String String)) (job : slot.Job)

lemma answered_append_ok (text : String) :
    answered (jobs ++ [(job, .ok text)]) = answered jobs + 1 :=
  List.countP_append

lemma answered_append_error (e : String) : answered (jobs ++ [(job, .error e)]) = answered jobs :=
  List.countP_append

lemma answeredTokens_append_ok (text : String) :
    answeredTokens (jobs ++ [(job, .ok text)]) =
      answeredTokens jobs + slot.promptTokens job.prompt := by
  induction jobs with
  | nil => simp [answeredTokens]
  | cons e jobs ih =>
    obtain ⟨_, _ | _⟩ := e
    · simpa only [List.cons_append, answeredTokens] using ih
    · simp only [List.cons_append, answeredTokens, ih]
      omega

lemma answeredTokens_append_error (e : String) :
    answeredTokens (jobs ++ [(job, .error e)]) = answeredTokens jobs := by
  induction jobs with
  | nil => rfl
  | cons e jobs ih =>
    obtain ⟨_, _ | _⟩ := e
    · simpa only [List.cons_append, answeredTokens] using ih
    · simp only [List.cons_append, answeredTokens, ih]

end Appended

/-- What is answered is paid for. -/
structure Paid (s t : Session Token) (jobs : List (slot.Job × Except String String)) : Prop where
  within : t.Within
  maxSeqLen : t.maxSeqLen = s.maxSeqLen
  tokens_le : s.nCur.toInt + answeredTokens jobs ≤ t.nCur.toInt
  answered_le : answered jobs ≤ answeredTokens jobs
  room : answeredTokens jobs = 0 ∨ s.nCur.toInt + answeredTokens jobs < s.maxSeqLen.toNat

lemma paid_of_serial {jobs : List (slot.Job × Except String String)}
    (hbounded : Session.Bounded slot.llama s.maxSeqLen) (hvectors : slot.Vectors)
    (hwithin : s.Within) (h : slot.locked.Serial jobs s t) : Paid s t jobs := by
  induction h with
  | nil s => exact ⟨hwithin, rfl, by simp [answeredTokens], le_rfl, .inl rfl⟩
  | @append jobs s t u job b h hrun ih =>
    obtain ⟨hwithin', hmax, hle, hanswered, hroom⟩ := ih hbounded hwithin
    obtain ⟨rfl, rfl⟩ := hrun.unique (runs_generate job.prompt job.req.maxTokens.toNat t)
    have hbounded' : Session.Bounded slot.llama t.maxSeqLen := by rwa [hmax]
    obtain ⟨hwithin'', hmoves⟩ := nCur_generate hbounded' hvectors hwithin' job.prompt
      job.req.maxTokens.toNat
    have hmax' : (slot.generate job.prompt job.req.maxTokens.toNat t).2.maxSeqLen = s.maxSeqLen :=
      (maxSeqLen_generate ..).trans hmax
    cases hresult : (slot.generate job.prompt job.req.maxTokens.toNat t).1 with
    | error e =>
      rw [hresult] at hmoves
      refine ⟨hwithin'', hmax', ?_, ?_, ?_⟩
      · rwa [answeredTokens_append_error, hmoves]
      · rwa [answered_append_error, answeredTokens_append_error]
      · rwa [answeredTokens_append_error]
    | ok text =>
      rw [hresult] at hmoves
      obtain ⟨hpos, hlt, hnCur⟩ := hmoves
      rw [hmax] at hlt
      refine ⟨hwithin'', hmax', ?_, ?_, .inr ?_⟩
      · rw [answeredTokens_append_ok]
        push_cast
        omega
      · rw [answered_append_ok, answeredTokens_append_ok]
        omega
      · rw [answeredTokens_append_ok]
        push_cast
        omega

/-- The position is at the end of the context. -/
def Exhausted (s : Session Token) : Prop := (s.maxSeqLen.toNat : ℤ) ≤ s.nCur.toInt + 1

/-- At the end of the context nothing is answered, and nothing moves. -/
lemma generate_of_exhausted (hbounded : Session.Bounded slot.llama s.maxSeqLen)
    (hvectors : slot.Vectors) (hwithin : s.Within) (hexhausted : Exhausted s) (prompt : String)
    (maxTokens : ℕ) :
    (slot.generate prompt maxTokens s).2.nCur = s.nCur ∧
      ∀ tokens, slot.tokenize prompt true = .ok tokens → tokens ≠ [] →
        (slot.generate prompt maxTokens s).1 =
          .error (exceedsContext tokens.length (asUsize s.nCur) s.maxSeqLen.toNat) := by
  constructor
  · obtain ⟨-, hmoves⟩ := nCur_generate hbounded hvectors hwithin prompt maxTokens
    cases hresult : (slot.generate prompt maxTokens s).1 with
    | error e => simpa only [hresult] using hmoves
    | ok text =>
      rw [hresult] at hmoves
      obtain ⟨hpos, hlt, -⟩ := hmoves
      rw [Exhausted] at hexhausted
      omega
  · intro tokens htokens hne
    have hpos := hwithin.coe_asUsize
    have hle := hwithin.asUsize_le
    have hfits := hwithin.fits
    have hlen := List.length_pos_iff.mpr hne
    have hvec := hvectors prompt tokens htokens
    have hroom : s.maxSeqLen.toNat ≤ (asUsize s.nCur + tokens.length) % 2 ^ 64 := by
      rw [Nat.mod_eq_of_lt (by omega)]
      rw [Exhausted] at hexhausted
      omega
    rw [generate, htokens]
    simp only [Session.generateRaw_of_overlong hne hroom]
    rfl

lemma serial_of_exhausted {jobs : List (slot.Job × Except String String)}
    (hbounded : Session.Bounded slot.llama s.maxSeqLen) (hvectors : slot.Vectors)
    (hwithin : s.Within) (hexhausted : Exhausted s) (h : slot.locked.Serial jobs s t) :
    t.nCur = s.nCur ∧ ∀ job b, (job, b) ∈ jobs → ∀ tokens,
      slot.tokenize job.prompt true = .ok tokens → tokens ≠ [] →
        b = .error (exceedsContext tokens.length (asUsize s.nCur) s.maxSeqLen.toNat) := by
  induction h with
  | nil s => exact ⟨rfl, by simp⟩
  | @append jobs s t u job b h hrun ih =>
    obtain ⟨hnCur, hjobs⟩ := ih hbounded hwithin hexhausted
    obtain ⟨hwithin', hmax, -⟩ := paid_of_serial hbounded hvectors hwithin h
    obtain ⟨rfl, rfl⟩ := hrun.unique (runs_generate job.prompt job.req.maxTokens.toNat t)
    have hbounded' : Session.Bounded slot.llama t.maxSeqLen := by rwa [hmax]
    have hexhausted' : Exhausted t := by rwa [Exhausted, hmax, hnCur]
    obtain ⟨hnCur', hrefused⟩ := generate_of_exhausted hbounded' hvectors hwithin' hexhausted'
      job.prompt job.req.maxTokens.toNat
    refine ⟨hnCur'.trans hnCur, fun job' b' hmem tokens htokens hne => ?_⟩
    rcases List.mem_append.mp hmem with hmem | hlast
    · exact hjobs job' b' hmem tokens htokens hne
    · cases List.mem_singleton.mp hlast
      rw [hrefused tokens htokens hne, hnCur, hmax]

/-- The position behind calls that are made one after the other. -/
def position (s : Session Token) (served : List (ℕ × slot.Job × Except String String)) : ℕ :=
  asUsize (slot.serve (requests (served.map Prod.snd)) s).nCur

/-- A slot in its whole life, whatever the interleaving, where the positions of the context and the
one behind it are `i32`: the prompts that it answers fit into the context together, so that it
answers fewer requests than the context has tokens. Once the position behind some calls is at the
end of the context, every later request with a prompt is refused with the same position. -/
theorem budget_of_reachable (slot : LlamaSlot Token N) (batchCapacity : ℕ)
    (capacity_pos : 0 < batchCapacity) (maxSeqLen : UInt32) (hmax : maxSeqLen.toNat + 1 < 2 ^ 31)
    (hbounded : Session.Bounded slot.llama maxSeqLen) (hvectors : slot.Vectors) {s : slot.State}
    (h : (slot.machine (Session.fresh batchCapacity capacity_pos maxSeqLen)).Reachable s)
    (before later : List (ℕ × slot.Job × Except String String))
    (hserved : s.closures.served = before ++ later) :
    answered (s.closures.served.map Prod.snd) ≤ maxSeqLen.toNat - 1 ∧
    answeredTokens (s.closures.served.map Prod.snd) ≤ maxSeqLen.toNat - 1 ∧
    answeredTokens (before.map Prod.snd) ≤
      position (Session.fresh batchCapacity capacity_pos maxSeqLen) before ∧
    position (Session.fresh batchCapacity capacity_pos maxSeqLen) before ≤ maxSeqLen.toNat + 1 ∧
    (maxSeqLen.toNat ≤ position (Session.fresh batchCapacity capacity_pos maxSeqLen) before + 1 →
      ∀ i c result prompt tokens, i ∈ later.map Prod.fst → s.runs i = some c →
        c.pc = .returned result → slot.prompt c.req = .ok prompt →
        slot.tokenize prompt true = .ok tokens → tokens ≠ [] →
        result = .ok (.error (exceedsContext tokens.length
          (position (Session.fresh batchCapacity capacity_pos maxSeqLen) before)
          maxSeqLen.toNat))) := by
  have hinv := inv_of_reachable h
  have hclosures := Section.inv_of_reachable hinv.closures
  obtain ⟨u, hserial, -⟩ := hclosures.serial
  have hfresh : (Session.fresh batchCapacity capacity_pos maxSeqLen : Session Token).Within :=
    Session.within_fresh batchCapacity capacity_pos hmax
  obtain ⟨-, -, -, hanswered, hroom⟩ := paid_of_serial hbounded hvectors hfresh hserial
  have hzero :
      (Session.fresh batchCapacity capacity_pos maxSeqLen : Session Token).nCur.toInt = 0 :=
    rfl
  have hmaxSeqLen : (Session.fresh batchCapacity capacity_pos maxSeqLen : Session Token).maxSeqLen =
    maxSeqLen := rfl
  rw [hzero, hmaxSeqLen] at hroom
  have htokens : answeredTokens (s.closures.served.map Prod.snd) ≤ maxSeqLen.toNat - 1 := by omega
  refine ⟨hanswered.trans htokens, htokens, ?_⟩
  rw [hserved, List.map_append] at hserial
  obtain ⟨v, hbefore, hlater⟩ := hserial.split
  obtain ⟨hwithin, hmax', hle, -, -⟩ := paid_of_serial hbounded hvectors hfresh hbefore
  have hpos := hwithin.coe_asUsize
  have hbound := hwithin.asUsize_le
  rw [hmaxSeqLen] at hmax'
  rw [hmax'] at hbound
  rw [position, serve_of_serial hbefore]
  refine ⟨by omega, hbound, fun hend i c result prompt tokens hi hc hpc hprompt htokens hne => ?_⟩
  obtain ⟨⟨j, job, b⟩, hmem, rfl⟩ := List.mem_map.mp hi
  have hexhausted : Exhausted v := by
    rw [Exhausted, hmax']
    omega
  have hbounded' : Session.Bounded slot.llama v.maxSeqLen := by rwa [hmax']
  obtain ⟨-, hrefused⟩ := serial_of_exhausted hbounded' hvectors hwithin hexhausted hlater
  have hreturned : s.closures.calls j = some (.returned job b) :=
    (hclosures.returned j job b).mpr (by rw [hserved]; exact List.mem_append_right _ hmem)
  have hl := hinv.linked j
  rw [hc, hreturned] at hl
  cases hl with
  | unblock => cases hpc
  | answered =>
    cases hpc
    have hjob := job.prompt_eq
    rw [hprompt] at hjob
    cases hjob
    have hb := hrefused job b (List.mem_map_of_mem hmem) tokens htokens hne
    rw [hb, answer, hmax']

/-! ### A slot that is used up -/

/-- One token for each character of a prompt that is short enough. -/
def smallSlot : LlamaSlot ℕ Empty :=
  { demoSlot with strToToken := fun prompt _ =>
      if prompt.length < 100 then .ok (prompt.toList.map Char.toNat) else .error "too long" }

lemma vectors_smallSlot : smallSlot.Vectors := by
  intro prompt tokens h
  simp only [tokenize, smallSlot] at h
  by_cases hlen : prompt.length < 100
  · rw [if_pos hlen] at h
    cases h
    rw [List.length_map, String.length_toList]
    omega
  · rw [if_neg hlen] at h
    cases h

def smallJob (text : String) : smallSlot.Job where
  req := demoText text
  sink := true
  prompt := prependToolResultsToText text [] smallSlot.toolFormat
  prompt_eq := rfl

/-- A request that uses the context up, and one that comes too late. -/
def smallState : smallSlot.State :=
  (State.called ⟨.start Session.demoSession, fun _ => none⟩ 0 (smallJob "123456")).called 1
    (smallJob "a")

lemma reachable_smallState : (smallSlot.machine Session.demoSession).Reachable smallState :=
  ⟨_, rfl, (steps_called rfl rfl _).trans (steps_called rfl rfl _)⟩

theorem budget_of_reachable_demo :
    answeredTokens (smallState.closures.served.map Prod.snd) ≤ 7 ∧
      ∃ c, smallState.runs 1 = some c ∧
        c.pc = .returned (.ok (.error (exceedsContext 1 8 8))) := by
  obtain ⟨-, htokens, -, -, hrefused⟩ := budget_of_reachable smallSlot 2 (by decide) 8 (by decide)
    (Session.bounded_demoLlama 8) vectors_smallSlot reachable_smallState
    (smallState.closures.served.take 1) (smallState.closures.served.drop 1)
    (List.take_append_drop 1 _).symm
  have hpos : position (Session.fresh 2 (by decide) 8) (smallState.closures.served.take 1) = 8 := by
    decide +kernel
  rw [hpos] at hrefused
  have hresult := hrefused (by decide) 1 _ _ _ [97] (List.mem_singleton.mpr rfl) rfl rfl
    (smallJob "a").prompt_eq (by decide +kernel) (by decide)
  exact ⟨htokens, _, rfl, congrArg Pc.returned hresult⟩

end LlamaSlot
end ModelApi.Llama
