import ModelApi.Llama.Slot

/-!
# What earlier requests leave behind

The session of a slot is never cleared, so that a request finds what earlier ones committed.
Requests are isolated where nothing was committed.
-/

namespace ModelApi.Llama

open Gemma Server

variable {Token N : Type}

/-! ### The batch is no state -/

namespace Session

variable {llama : LlamaCpp Token} {tokens : List Token}

/-- The session with another batch. -/
def withBatch (s : Session Token) (batch : List (Entry Token)) : Session Token :=
  { s with batch := batch }

@[simp] lemma withBatch_kv (s : Session Token) (batch : List (Entry Token)) :
    (s.withBatch batch).kv = s.kv := rfl

@[simp] lemma withBatch_nCur (s : Session Token) (batch : List (Entry Token)) :
    (s.withBatch batch).nCur = s.nCur := rfl

@[simp] lemma withBatch_withBatch (s : Session Token) (batch batch' : List (Entry Token)) :
    (s.withBatch batch).withBatch batch' = s.withBatch batch' := rfl

lemma withBatch_self (s : Session Token) : s.withBatch s.batch = s := rfl

/-- Whatever the batch was, a prompt leaves the same, but for the batch of a prompt that is not
decoded at all. -/
lemma prefill_withBatch (llama : LlamaCpp Token) (tokens : List Token) (s : Session Token)
    (batch : List (Entry Token)) :
    (∃ n, (prefill llama tokens s).1 = .ok n) ∧
        prefill llama tokens (s.withBatch batch) = prefill llama tokens s ∨
      (∃ e, (prefill llama tokens s).1 = .error e ∧
        (prefill llama tokens (s.withBatch batch)).1 = .error e) ∧
        ∃ batch', (prefill llama tokens (s.withBatch batch)).2 =
          (prefill llama tokens s).2.withBatch batch' := by
  by_cases hnil : tokens = []
  · right
    simp only [prefill, if_pos hnil]
    exact ⟨⟨_, rfl, rfl⟩, batch, rfl⟩
  · by_cases hroom : s.maxSeqLen.toNat ≤ (asUsize s.nCur + tokens.length) % 2 ^ 64
    · right
      simp only [prefill, if_neg hnil]
      have hroom' : (s.withBatch batch).maxSeqLen.toNat ≤
          (asUsize (s.withBatch batch).nCur + tokens.length) % 2 ^ 64 := hroom
      rw [if_pos hroom, if_pos hroom']
      exact ⟨⟨_, rfl, rfl⟩, batch, rfl⟩
    · have hloop : prefillLoop llama tokens (asUsize s.nCur) tokens.length 0 (s.withBatch batch) =
          prefillLoop llama tokens (asUsize s.nCur) tokens.length 0 s := by
        obtain ⟨n, hn⟩ := Nat.exists_eq_succ_of_ne_zero (List.length_pos_iff.mpr hnil).ne'
        rw [hn, prefillLoop_succ (by omega), prefillLoop_succ (by omega)]
        rfl
      have heq : prefill llama tokens (s.withBatch batch) = prefill llama tokens s := by
        simp only [prefill, if_neg hnil]
        have hroom' : ¬ (s.withBatch batch).maxSeqLen.toNat ≤
            (asUsize (s.withBatch batch).nCur + tokens.length) % 2 ^ 64 := hroom
        rw [if_neg hroom, if_neg hroom', withBatch_nCur, hloop]
      rw [heq]
      cases hresult : (prefill llama tokens s).1 with
      | ok n => exact .inl ⟨⟨n, rfl⟩, rfl⟩
      | error e => exact .inr ⟨⟨e, rfl, rfl⟩, _, (withBatch_self _).symm⟩

lemma generateRaw_withBatch (llama : LlamaCpp Token) (tokens : List Token) (s : Session Token)
    (batch : List (Entry Token)) (maxTokens : ℕ) :
    (generateRaw llama tokens maxTokens (s.withBatch batch)).1 =
        (generateRaw llama tokens maxTokens s).1 ∧
      ∃ batch', (generateRaw llama tokens maxTokens (s.withBatch batch)).2 =
        (generateRaw llama tokens maxTokens s).2.withBatch batch' := by
  rcases prefill_withBatch llama tokens s batch with
    ⟨-, heq⟩ | ⟨⟨e, he, he'⟩, batch', hbatch⟩
  · rw [generateRaw, heq]
    exact ⟨rfl, _, (withBatch_self _).symm⟩
  · rw [generateRaw, generateRaw]
    cases hs : prefill llama tokens s with
    | mk result t =>
      cases hs' : prefill llama tokens (s.withBatch batch) with
      | mk result' t' =>
        rw [hs] at he hbatch
        rw [hs'] at he' hbatch
        simp only at he he' hbatch
        subst he he' hbatch
        exact ⟨rfl, batch', rfl⟩

lemma begins_withBatch {s : Session Token} {batch : List (Entry Token)} :
    Begins llama (s.withBatch batch) tokens ↔ Begins llama s tokens :=
  ⟨fun ⟨h, h', h''⟩ => ⟨h, h', h''⟩, fun ⟨h, h', h''⟩ => ⟨h, h', h''⟩⟩

/-! ### The size of the context -/

lemma maxSeqLen_prefillLoop (startPos fuel i : ℕ) (s : Session Token) :
    (prefillLoop llama tokens startPos fuel i s).2.maxSeqLen = s.maxSeqLen := by
  induction fuel generalizing i s with
  | zero => rfl
  | succ fuel ih =>
    by_cases hi : i < tokens.length
    · rw [prefillLoop_succ hi]
      cases llama.refuses s.kv (chunkAt s tokens startPos i) with
      | some e => rfl
      | none => exact ih _ _
    · rw [prefillLoop, if_neg hi]

lemma maxSeqLen_prefill (s : Session Token) :
    (prefill llama tokens s).2.maxSeqLen = s.maxSeqLen := by
  have hloop : (prefillLoop llama tokens (asUsize s.nCur) tokens.length 0 s).2.maxSeqLen =
      s.maxSeqLen := maxSeqLen_prefillLoop _ _ _ s
  by_cases hnil : tokens = []
  · rw [prefill, if_pos hnil]
  · by_cases hroom : s.maxSeqLen.toNat ≤ (asUsize s.nCur + tokens.length) % 2 ^ 64
    · rw [prefill, if_neg hnil]
      simp only [if_pos hroom]
    · rw [prefill, if_neg hnil]
      simp only [if_neg hroom]
      cases hs : prefillLoop llama tokens (asUsize s.nCur) tokens.length 0 s with
      | mk result t =>
        rw [hs] at hloop
        cases result <;> exact hloop

lemma maxSeqLen_pushToken (token : Token) (s : Session Token) :
    (pushToken llama token s).2.maxSeqLen = s.maxSeqLen := by
  rw [pushToken_eq]
  cases llama.refuses s.kv [⟨token, s.nCur, true⟩] <;> rfl

lemma maxSeqLen_generateLoop (turns : ℕ) (produced : List Token) (s : Session Token) :
    (generateLoop llama turns produced s).2.maxSeqLen = s.maxSeqLen := by
  induction turns generalizing produced s with
  | zero => rfl
  | succ turns ih =>
    rw [generateLoop]
    cases step llama s with
    | none => rfl
    | some token =>
      have hpush : (pushToken llama token s).2.maxSeqLen = s.maxSeqLen :=
        maxSeqLen_pushToken token s
      simp only
      cases hs : pushToken llama token s with
      | mk result t =>
        rw [hs] at hpush
        cases result with
        | error e => exact hpush
        | ok _ => exact (ih _ _).trans hpush

lemma maxSeqLen_generateRaw (maxTokens : ℕ) (s : Session Token) :
    (generateRaw llama tokens maxTokens s).2.maxSeqLen = s.maxSeqLen := by
  have hprefill : (prefill llama tokens s).2.maxSeqLen = s.maxSeqLen := maxSeqLen_prefill s
  rw [generateRaw]
  cases hs : prefill llama tokens s with
  | mk result t =>
    rw [hs] at hprefill
    cases result with
    | error e => exact hprefill
    | ok n => exact (maxSeqLen_generateLoop _ _ _).trans hprefill

/-! ### Prompts that do not begin -/

/-- A prompt that does not fit is refused with a message that tells the position. -/
lemma generateRaw_of_overlong {s : Session Token} (hne : tokens ≠ [])
    (hroom : s.maxSeqLen.toNat ≤ (asUsize s.nCur + tokens.length) % 2 ^ 64) (maxTokens : ℕ) :
    generateRaw llama tokens maxTokens s =
      (.error (s!"prompt {tokens.length} tokens at pos {asUsize s.nCur} exceeds context " ++
        s!"{s.maxSeqLen.toNat}"), s) := by
  have hprefill : prefill llama tokens s =
      (.error (s!"prompt {tokens.length} tokens at pos {asUsize s.nCur} exceeds context " ++
        s!"{s.maxSeqLen.toNat}"), s) := by
    rw [prefill, if_neg hne]
    simp only [if_pos hroom]
  rw [generateRaw, hprefill]

lemma generateRaw_of_not_begins {s : Session Token} (h : ¬ Begins llama s tokens) (maxTokens : ℕ) :
    ∃ batch, (generateRaw llama tokens maxTokens s).2 = s.withBatch batch := by
  obtain ⟨e, batch, heq⟩ := prefill_of_not_begins h
  rw [generateRaw, heq]
  exact ⟨batch, rfl⟩

end Session

/-! ### Requests -/

namespace LlamaSlot

variable {slot : LlamaSlot Token N} {s : Session Token} {req : InferenceRequest}

/-- The request gets the first chunk of its prompt into the cache. -/
def Commits (slot : LlamaSlot Token N) (s : Session Token) (req : InferenceRequest) : Prop :=
  ∃ prompt tokens, slot.prompt req = .ok prompt ∧ slot.tokenize prompt true = .ok tokens ∧
    Session.Begins slot.llama s tokens

lemma generate_snd {prompt : String} {tokens : List Token}
    (h : slot.tokenize prompt true = .ok tokens) (maxTokens : ℕ) :
    (slot.generate prompt maxTokens s).2 =
      (Session.generateRaw slot.llama tokens maxTokens s).2 := by
  rw [generate, h]
  simp only
  cases Session.generateRaw slot.llama tokens maxTokens s with
  | mk result t => cases result <;> rfl

lemma runInner_snd {prompt : String} (h : slot.prompt req = .ok prompt) (sink : Bool) :
    (slot.runInner req sink s).2 = (slot.generate prompt req.maxTokens.toNat s).2 := by
  rw [runInner, h]
  simp only
  cases slot.generate prompt req.maxTokens.toNat s with
  | mk result t => cases result <;> rfl

lemma generate_withBatch (slot : LlamaSlot Token N) (s : Session Token) (batch : List (Entry Token))
    (prompt : String)
    (maxTokens : ℕ) :
    (slot.generate prompt maxTokens (s.withBatch batch)).1 =
        (slot.generate prompt maxTokens s).1 ∧
      ∃ batch', (slot.generate prompt maxTokens (s.withBatch batch)).2 =
        (slot.generate prompt maxTokens s).2.withBatch batch' := by
  rw [generate, generate]
  cases slot.tokenize prompt true with
  | error e => exact ⟨rfl, batch, rfl⟩
  | ok tokens =>
    obtain ⟨hresult, batch', hbatch⟩ :=
      Session.generateRaw_withBatch slot.llama tokens s batch maxTokens
    simp only
    cases hs : Session.generateRaw slot.llama tokens maxTokens s with
    | mk result t =>
      cases hs' : Session.generateRaw slot.llama tokens maxTokens (s.withBatch batch) with
      | mk result' t' =>
        rw [hs, hs'] at hresult hbatch
        simp only at hresult hbatch
        subst hresult hbatch
        cases result' with
        | error e => exact ⟨rfl, batch', rfl⟩
        | ok outTokens => exact ⟨rfl, batch', rfl⟩

/-- The outcome of a request does not depend on the batch that it finds. -/
lemma runInner_withBatch (s : Session Token) (batch : List (Entry Token)) (req : InferenceRequest)
    (sink : Bool) :
    (slot.runInner req sink (s.withBatch batch)).1 = (slot.runInner req sink s).1 := by
  rw [runInner, runInner]
  cases slot.prompt req with
  | error e => rfl
  | ok prompt =>
    obtain ⟨hresult, -⟩ := generate_withBatch slot s batch prompt req.maxTokens.toNat
    simp only
    cases hs : slot.generate prompt req.maxTokens.toNat s with
    | mk result t =>
      cases hs' : slot.generate prompt req.maxTokens.toNat (s.withBatch batch) with
      | mk result' t' =>
        rw [hs, hs'] at hresult
        simp only at hresult
        subst hresult
        cases result' <;> rfl

lemma runInner_snd_of_error {e : String} (h : slot.prompt req = .error e) (sink : Bool) :
    (slot.runInner req sink s).2 = s := by
  rw [runInner, h]

lemma generate_snd_of_error {prompt e : String} (h : slot.tokenize prompt true = .error e)
    (maxTokens : ℕ) : (slot.generate prompt maxTokens s).2 = s := by
  rw [generate, h]

/-- A request that commits nothing changes nothing but the batch. -/
lemma runInner_of_not_commits (h : ¬ Commits slot s req) (sink : Bool) :
    ∃ batch, (slot.runInner req sink s).2 = s.withBatch batch := by
  cases hprompt : slot.prompt req with
  | error e =>
    refine ⟨s.batch, ?_⟩
    rw [runInner_snd_of_error hprompt]
    rfl
  | ok prompt =>
    rw [runInner_snd hprompt]
    cases htokens : slot.tokenize prompt true with
    | error e =>
      refine ⟨s.batch, ?_⟩
      rw [generate_snd_of_error htokens]
      rfl
    | ok tokens =>
      rw [generate_snd htokens]
      apply Session.generateRaw_of_not_begins
      exact fun hbegins => h ⟨prompt, tokens, hprompt, htokens, hbegins⟩

lemma commits_withBatch {batch : List (Entry Token)} :
    Commits slot (s.withBatch batch) req ↔ Commits slot s req := by
  simp only [Commits, Session.begins_withBatch]

/-- A history of requests that commit nothing changes nothing but the batch. -/
lemma serve_of_not_commits {history : List (InferenceRequest × Bool)}
    (h : ∀ r ∈ history, ¬ Commits slot s r.1) :
    ∃ batch, slot.serve history s = s.withBatch batch := by
  induction history generalizing s with
  | nil => exact ⟨_, (Session.withBatch_self s).symm⟩
  | cons r history ih =>
    obtain ⟨hr, hhistory⟩ := List.forall_mem_cons.mp h
    obtain ⟨batch, heq⟩ := runInner_of_not_commits hr r.2
    obtain ⟨batch', heq'⟩ := ih (s := s.withBatch batch) fun r hr => by
      rw [commits_withBatch]
      exact hhistory r hr
    refine ⟨batch', ?_⟩
    rw [serve, List.foldl_cons, heq]
    exact heq'

lemma maxSeqLen_runInner (req : InferenceRequest) (sink : Bool) (s : Session Token) :
    (slot.runInner req sink s).2.maxSeqLen = s.maxSeqLen := by
  cases hprompt : slot.prompt req with
  | error e => rw [runInner_snd_of_error hprompt]
  | ok prompt =>
    rw [runInner_snd hprompt]
    cases htokens : slot.tokenize prompt true with
    | error e => rw [generate_snd_of_error htokens]
    | ok tokens =>
      rw [generate_snd htokens]
      exact Session.maxSeqLen_generateRaw _ s

lemma maxSeqLen_serve (history : List (InferenceRequest × Bool)) (s : Session Token) :
    (slot.serve history s).maxSeqLen = s.maxSeqLen := by
  induction history generalizing s with
  | nil => rfl
  | cons r history ih =>
    rw [serve, List.foldl_cons]
    exact (ih _).trans (maxSeqLen_runInner r.1 r.2 s)

/-- The prompt of the request is not empty, and does not fit behind the position. -/
structure Overlong (slot : LlamaSlot Token N) (s : Session Token) (req : InferenceRequest)
    (prompt : String) (tokens : List Token) : Prop where
  prompt_eq : slot.prompt req = .ok prompt
  tokens_eq : slot.tokenize prompt true = .ok tokens
  ne_nil : tokens ≠ []
  noRoom : s.maxSeqLen.toNat ≤ (asUsize s.nCur + tokens.length) % 2 ^ 64

lemma generate_of_overlong {prompt : String} {tokens : List Token}
    (h : Overlong slot s req prompt tokens) (maxTokens : ℕ) :
    slot.generate prompt maxTokens s = (.error
      (s!"prompt {tokens.length} tokens at pos {asUsize s.nCur} exceeds context " ++
        s!"{s.maxSeqLen.toNat}"), s) := by
  rw [generate, h.tokens_eq]
  simp only [Session.generateRaw_of_overlong h.ne_nil h.noRoom]

lemma result_of_overlong {prompt : String} {tokens : List Token}
    (h : Overlong slot s req prompt tokens) (sink : Bool) :
    (slot.runInner req sink s).1.result = .ok (.error
      (s!"prompt {tokens.length} tokens at pos {asUsize s.nCur} exceeds context " ++
        s!"{s.maxSeqLen.toNat}")) := by
  rw [runInner, h.prompt_eq]
  simp only [generate_of_overlong h]

lemma position_eq_of_text_eq {n m len max : ℕ}
    (h : s!"prompt {len} tokens at pos {n} exceeds context " ++ s!"{max}" =
      s!"prompt {len} tokens at pos {m} exceeds context " ++ s!"{max}") : n = m := by
  have hrepr : Nat.repr n = Nat.repr m := by
    simpa [String.append_left_inj, String.append_right_inj] using h
  exact Nat.repr_inj.mp hrepr

/-- Any two histories of requests that commit nothing are followed by the same outcomes. Where
something was committed, a prompt that is too long either way tells two positions apart. -/
theorem isolated (slot : LlamaSlot Token N) (batchCapacity : ℕ) (capacity_pos : 0 < batchCapacity)
    (maxSeqLen : UInt32) (h₁ h₂ : List (InferenceRequest × Bool)) :
    ((∀ r ∈ h₁ ++ h₂, ¬ Commits slot (Session.fresh batchCapacity capacity_pos maxSeqLen) r.1) →
      ∀ req sink,
        (slot.runInner req sink
          (slot.serve h₁ (Session.fresh batchCapacity capacity_pos maxSeqLen))).1 =
        (slot.runInner req sink
          (slot.serve h₂ (Session.fresh batchCapacity capacity_pos maxSeqLen))).1) ∧
      ∀ req sink prompt tokens,
        Overlong slot (slot.serve h₁ (Session.fresh batchCapacity capacity_pos maxSeqLen)) req
          prompt tokens →
        Overlong slot (slot.serve h₂ (Session.fresh batchCapacity capacity_pos maxSeqLen)) req
          prompt tokens →
        ((slot.runInner req sink
            (slot.serve h₁ (Session.fresh batchCapacity capacity_pos maxSeqLen))).1.result =
          (slot.runInner req sink
            (slot.serve h₂ (Session.fresh batchCapacity capacity_pos maxSeqLen))).1.result ↔
          asUsize (slot.serve h₁ (Session.fresh batchCapacity capacity_pos maxSeqLen)).nCur =
            asUsize (slot.serve h₂ (Session.fresh batchCapacity capacity_pos maxSeqLen)).nCur) := by
  refine ⟨fun hquiet req sink => ?_, fun req sink prompt tokens hlong₁ hlong₂ => ?_⟩
  · obtain ⟨batch₁, heq₁⟩ := serve_of_not_commits fun r hr =>
      hquiet r (List.mem_append_left h₂ hr)
    obtain ⟨batch₂, heq₂⟩ := serve_of_not_commits fun r hr =>
      hquiet r (List.mem_append_right h₁ hr)
    rw [heq₁, heq₂, runInner_withBatch, runInner_withBatch]
  · rw [result_of_overlong hlong₁, result_of_overlong hlong₂, maxSeqLen_serve, maxSeqLen_serve]
    constructor
    · intro h
      apply position_eq_of_text_eq
      exact Except.error.inj (Except.ok.inj h)
    · intro h
      rw [h]

/-! ### A slot that tells -/

def demoJson : SerdeJson Empty := ⟨fun _ => none, fun _ => none⟩

/-- One token for each character, and one character for each token. -/
def demoSlot : LlamaSlot ℕ Empty where
  llama := Session.demoLlama 8
  strToToken prompt _ := .ok (prompt.toList.map Char.toNat)
  detokenize tokens := String.ofList (tokens.map Char.ofNat)
  json := demoJson
  toolFormat := XmlToolFormat demoJson fun _ => false
  chatFormat := Gemma4Format

/-- A request for at most two tokens behind a text. -/
def demoText (text : String) : InferenceRequest :=
  { InferenceRequest.plain .stateless [] with input := .text text, maxTokens := 2 }

/-- A prompt that is refused leaves nothing behind, and a prompt that is answered moves the
position. -/
theorem isolated_demo :
    (demoSlot.runInner (demoText "a") true
        (demoSlot.serve [(demoText "", false)] Session.demoSession)).1 =
      (demoSlot.runInner (demoText "a") true (demoSlot.serve [] Session.demoSession)).1 ∧
    ((demoSlot.runInner (demoText "12345678") true
        (demoSlot.serve [(demoText "a", false)] Session.demoSession)).1.result =
      (demoSlot.runInner (demoText "12345678") true
        (demoSlot.serve [] Session.demoSession)).1.result ↔
      asUsize (demoSlot.serve [(demoText "a", false)] Session.demoSession).nCur =
        asUsize (demoSlot.serve [] Session.demoSession).nCur) := by
  constructor
  · apply (isolated demoSlot 2 (by decide) 8 [(demoText "", false)] []).1
    intro r hr
    obtain rfl : r = (demoText "", false) := by simpa using hr
    rintro ⟨prompt, tokens, hprompt, htokens, hbegins⟩
    cases hprompt
    cases htokens
    exact hbegins.ne_nil (by decide +kernel)
  · apply (isolated demoSlot 2 (by decide) 8 [(demoText "a", false)] []).2 (demoText "12345678")
      true
    · exact ⟨rfl, rfl, by decide +kernel, by decide +kernel⟩
    · exact ⟨rfl, rfl, by decide +kernel, by decide +kernel⟩

/-- The text of an answer. -/
def Outcome.text? (o : Outcome) : Option String :=
  match o.result with
  | .ok (.ok resp) => some resp.text
  | .ok (.error _) | .error _ => none

/-- A request is answered otherwise behind a request of the same text. -/
theorem not_isolated :
    ¬ ∀ (h₁ h₂ : List (InferenceRequest × Bool)) (req : InferenceRequest) (sink : Bool),
      req.session = .stateless →
      (demoSlot.runInner req sink (demoSlot.serve h₁ Session.demoSession)).1.result =
        (demoSlot.runInner req sink (demoSlot.serve h₂ Session.demoSession)).1.result := by
  intro h
  have hresult := h [] [(demoText "a", false)] (demoText "a") true rfl
  have htext : (demoSlot.runInner (demoText "a") true
        (demoSlot.serve [] Session.demoSession)).1.text? =
      (demoSlot.runInner (demoText "a") true
        (demoSlot.serve [(demoText "a", false)] Session.demoSession)).1.text? := by
    rw [Outcome.text?, Outcome.text?, hresult]
  revert htext
  decide +kernel

end LlamaSlot
end ModelApi.Llama
