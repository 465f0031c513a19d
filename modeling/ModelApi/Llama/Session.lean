import ModelApi.Lib.Transition

/-!
# The llama.cpp session

`chitin_llama::Session`: the position `n_cur` that is kept by hand beside the KV cache, and the
operations that move both. An operation returns its result together with the session it leaves.
-/

namespace ModelApi.Llama

open Lib

variable {Token : Type}

/-- A token in a batch. Every token belongs to sequence 0. -/
structure Entry (Token : Type) where
  token : Token
  pos : Int32
  logits : Bool
  deriving DecidableEq, Repr

/-- The part of llama.cpp that a session uses: the greedy choice behind the tokens in the cache,
the tokens that end a generation, and the batches that are refused, with the error. -/
structure LlamaCpp (Token : Type) where
  sample : List Token → Token
  isEog : Token → Bool
  refuses : List Token → List (Entry Token) → Option String
  insufficientSpace : ℕ → String

/-- The KV cache of sequence 0, the batch, and the position of the next token. -/
structure Session (Token : Type) where
  kv : List Token
  batch : List (Entry Token)
  batchCapacity : ℕ
  capacity_pos : 0 < batchCapacity
  nCur : Int32
  maxSeqLen : UInt32

/-- `n as usize`. -/
def asUsize (n : Int32) : ℕ := (n.toInt % 2 ^ 64).toNat

/-- `n as i32`. -/
def asI32 (n : ℕ) : Int32 := Int32.ofNat n

namespace Session

/-- A session as `load` returns it. -/
def fresh (batchCapacity : ℕ) (capacity_pos : 0 < batchCapacity) (maxSeqLen : UInt32) :
    Session Token :=
  ⟨[], [], batchCapacity, capacity_pos, 0, maxSeqLen⟩

/-! ### Operations -/

variable (llama : LlamaCpp Token)

def clearKv (s : Session Token) : Session Token := { s with kv := [], nCur := 0 }

/-- `LlamaBatch::add` for the entries in order. -/
def add : List (Entry Token) → Session Token → Except String Unit × Session Token
  | [], s           => (.ok (), s)
  | e :: entries, s =>
    if s.batch.length < s.batchCapacity then add entries { s with batch := s.batch ++ [e] }
    else (.error (llama.insufficientSpace s.batchCapacity), s)

/-- The batch is committed or refused as a whole. -/
def decode (s : Session Token) : Except String Unit × Session Token :=
  match llama.refuses s.kv s.batch with
  | some e => (.error e, s)
  | none   => (.ok (), { s with kv := s.kv ++ s.batch.map Entry.token })

/-- The entries of the tokens from `i` up to `stop`. -/
def chunkEntries (promptTokens : List Token) (startPos i stop : ℕ) : List (Entry Token) :=
  ((promptTokens.take stop).drop i).mapIdx fun j tok =>
    ⟨tok, asI32 (startPos + i + j),
      stop = promptTokens.length ∧ i + j = promptTokens.length - 1⟩

/-- `while i < total`, for as many turns as there are tokens. -/
def prefillLoop (promptTokens : List Token) (startPos : ℕ) :
    ℕ → ℕ → Session Token → Except String Unit × Session Token
  | 0, _, s        => (.ok (), s)
  | fuel + 1, i, s =>
    if i < promptTokens.length then
      let stop := min (i + s.batchCapacity) promptTokens.length
      match add llama (chunkEntries promptTokens startPos i stop) { s with batch := [] } with
      | (.error e, s) => (.error s!"batch add prefill: {e}", s)
      | (.ok (), s)   =>
        match decode llama s with
        | (.error e, s) => (.error s!"decode prefill: {e}", s)
        | (.ok (), s)   => prefillLoop promptTokens startPos fuel stop s
    else (.ok (), s)

def prefill (promptTokens : List Token) (s : Session Token) :
    Except String Int32 × Session Token :=
  if promptTokens = [] then (.error "empty prompt", s)
  else
    let startPos := asUsize s.nCur
    let endTotal := (startPos + promptTokens.length) % 2 ^ 64
    if s.maxSeqLen.toNat ≤ endTotal then
      (.error (s!"prompt {promptTokens.length} tokens at pos {startPos} exceeds context " ++
        s!"{s.maxSeqLen.toNat}"), s)
    else
      match prefillLoop llama promptTokens startPos promptTokens.length 0 s with
      | (.error e, s) => (.error e, s)
      | (.ok (), s)   => (.ok (asI32 endTotal), { s with nCur := asI32 endTotal })

/-- `none` where the generation ends. -/
def step (s : Session Token) : Option Token :=
  let token := llama.sample s.kv
  if llama.isEog token then none else some token

def pushToken (token : Token) (s : Session Token) : Except String Unit × Session Token :=
  match add llama [⟨token, s.nCur, true⟩] { s with batch := [] } with
  | (.error e, s) => (.error s!"batch add: {e}", s)
  | (.ok (), s)   =>
    match decode llama { s with nCur := s.nCur + 1 } with
    | (.error e, s) => (.error s!"decode step: {e}", s)
    | (.ok (), s)   => (.ok (), s)

/-- The loop of `generate_raw`, with the number of turns left and the tokens produced. -/
def generateLoop : ℕ → List Token → Session Token → List Token × Session Token
  | 0, produced, s        => (produced, s)
  | turns + 1, produced, s =>
    match step llama s with
    | none       => (produced, s)
    | some token =>
      match pushToken llama token s with
      | (.error _, s) => (produced ++ [token], s)
      | (.ok (), s)   => generateLoop turns (produced ++ [token]) s

def generateRaw (promptTokens : List Token) (maxTokens : ℕ) (s : Session Token) :
    Except String (List Token) × Session Token :=
  match prefill llama promptTokens s with
  | (.error e, s) => (.error e, s)
  | (.ok _, s)    =>
    let (produced, s) := generateLoop llama maxTokens [] s
    (.ok produced, s)

/-! ### What the operations do -/

variable {llama} {s : Session Token} {tokens : List Token}

/-- The batch that a chunk of the prompt is decoded in. -/
def chunkAt (s : Session Token) (tokens : List Token) (startPos i : ℕ) : List (Entry Token) :=
  chunkEntries tokens startPos i (min (i + s.batchCapacity) tokens.length)

lemma add_eq {entries : List (Entry Token)}
    (h : s.batch.length + entries.length ≤ s.batchCapacity) :
    add llama entries s = (.ok (), { s with batch := s.batch ++ entries }) := by
  induction entries generalizing s with
  | nil => simp [add]
  | cons e entries ih =>
    simp only [List.length_cons] at h
    have hlt : s.batch.length < s.batchCapacity := by omega
    have hle : (s.batch ++ [e]).length + entries.length ≤ s.batchCapacity := by
      simp only [List.length_append, List.length_singleton]
      omega
    rw [add, if_pos hlt, ih hle]
    simp

lemma map_token_chunkEntries (startPos i stop : ℕ) :
    (chunkEntries tokens startPos i stop).map Entry.token = (tokens.take stop).drop i := by
  apply List.ext_getElem
  · simp [chunkEntries]
  · intro n h₁ h₂
    simp [chunkEntries]

lemma length_chunkAt_le (startPos i : ℕ) :
    (chunkAt s tokens startPos i).length ≤ s.batchCapacity := by
  simp only [chunkAt, chunkEntries, List.length_mapIdx, List.length_drop, List.length_take]
  omega

/-- One turn of the prefill: the chunk is refused, and nothing is committed, or it is committed. -/
lemma prefillLoop_succ {startPos i : ℕ} (hi : i < tokens.length) (fuel : ℕ) :
    prefillLoop llama tokens startPos (fuel + 1) i s =
      match llama.refuses s.kv (chunkAt s tokens startPos i) with
      | some e => (.error s!"decode prefill: {e}",
          { s with batch := chunkAt s tokens startPos i })
      | none   => prefillLoop llama tokens startPos fuel (min (i + s.batchCapacity) tokens.length)
          { s with
            kv := s.kv ++ (tokens.take (min (i + s.batchCapacity) tokens.length)).drop i
            batch := chunkAt s tokens startPos i } := by
  have hadd : add llama (chunkAt s tokens startPos i) { s with batch := [] } =
      (.ok (), { s with batch := chunkAt s tokens startPos i }) :=
    add_eq (by simpa using length_chunkAt_le startPos i)
  rw [prefillLoop, if_pos hi]
  simp only [chunkAt] at hadd ⊢
  rw [hadd]
  simp only [decode]
  cases llama.refuses s.kv (chunkEntries tokens startPos i _) with
  | some e => rfl
  | none => simp only [map_token_chunkEntries]

/-- From `i` on, every chunk is accepted. -/
def AcceptedFrom (llama : LlamaCpp Token) (kv tokens : List Token) (batchCapacity startPos i : ℕ) :
    Prop :=
  ∀ j, i ≤ j → j < tokens.length → batchCapacity ∣ j →
    llama.refuses (kv ++ tokens.take j)
      (chunkEntries tokens startPos j (min (j + batchCapacity) tokens.length)) = none

lemma prefillLoop_accepted {kv : List Token} {startPos i fuel : ℕ}
    (h : AcceptedFrom llama kv tokens s.batchCapacity startPos i) (hkv : s.kv = kv ++ tokens.take i)
    (hdvd : tokens.length ≤ i ∨ s.batchCapacity ∣ i) (hfuel : tokens.length ≤ fuel + i) :
    ∃ batch, prefillLoop llama tokens startPos fuel i s =
      (.ok (), { s with kv := kv ++ tokens, batch := batch }) := by
  induction fuel generalizing i s with
  | zero =>
    have htake : tokens.take i = tokens := List.take_of_length_le (by omega)
    rw [htake] at hkv
    refine ⟨s.batch, ?_⟩
    rw [prefillLoop, ← hkv]
  | succ fuel ih =>
    by_cases hi : i < tokens.length
    · have hdvd' : s.batchCapacity ∣ i := hdvd.resolve_left (by omega)
      have hpos := s.capacity_pos
      rw [prefillLoop_succ hi, hkv]
      simp only [chunkAt, h i le_rfl hi hdvd']
      refine ih ?_ ?_ ?_ ?_
      · exact fun j hj => h j (by omega)
      · have hdrop := List.take_append_drop i
          (tokens.take (min (i + s.batchCapacity) tokens.length))
        rw [List.take_take, min_eq_left (by omega)] at hdrop
        simp only [List.append_assoc, hdrop]
      · by_cases hle : i + s.batchCapacity < tokens.length
        · right
          rw [min_eq_left hle.le]
          exact Dvd.dvd.add hdvd' dvd_rfl
        · left
          omega
      · omega
    · have htake : tokens.take i = tokens := List.take_of_length_le (by omega)
      rw [htake] at hkv
      refine ⟨s.batch, ?_⟩
      rw [prefillLoop, if_neg hi, ← hkv]

/-! ### Accepted prompts -/

/-- The first chunk of the prompt gets into the cache. -/
structure Begins (llama : LlamaCpp Token) (s : Session Token) (tokens : List Token) : Prop where
  ne_nil : tokens ≠ []
  room : (asUsize s.nCur + tokens.length) % 2 ^ 64 < s.maxSeqLen.toNat
  accepted : llama.refuses s.kv (chunkAt s tokens (asUsize s.nCur) 0) = none

/-- A prompt that does not begin changes nothing but the batch. -/
lemma prefill_of_not_begins (h : ¬ Begins llama s tokens) :
    ∃ e batch, prefill llama tokens s = (.error e, { s with batch := batch }) := by
  by_cases hnil : tokens = []
  · exact ⟨_, s.batch, if_pos hnil⟩
  · by_cases hroom : s.maxSeqLen.toNat ≤ (asUsize s.nCur + tokens.length) % 2 ^ 64
    · rw [prefill, if_neg hnil]
      simp only [if_pos hroom]
      exact ⟨_, s.batch, rfl⟩
    · obtain ⟨n, hn⟩ := Nat.exists_eq_succ_of_ne_zero (List.length_pos_iff.mpr hnil).ne'
      cases hrefuses : llama.refuses s.kv (chunkAt s tokens (asUsize s.nCur) 0) with
      | none => exact absurd ⟨hnil, not_le.mp hroom, hrefuses⟩ h
      | some e =>
        have hloop : prefillLoop llama tokens (asUsize s.nCur) tokens.length 0 s =
            (.error s!"decode prefill: {e}",
              { s with batch := chunkAt s tokens (asUsize s.nCur) 0 }) := by
          rw [hn, prefillLoop_succ (by omega), hrefuses]
        rw [prefill, if_neg hnil]
        simp only [if_neg hroom, hloop]
        exact ⟨_, _, rfl⟩

/-- A prompt whose chunks are all accepted is appended to the cache. -/
lemma prefill_of_begins (h : Begins llama s tokens)
    (hlater : AcceptedFrom llama s.kv tokens s.batchCapacity (asUsize s.nCur) 1) :
    ∃ batch, prefill llama tokens s =
      (.ok (asI32 ((asUsize s.nCur + tokens.length) % 2 ^ 64)),
        { s with
          kv := s.kv ++ tokens
          batch := batch
          nCur := asI32 ((asUsize s.nCur + tokens.length) % 2 ^ 64) }) := by
  have haccepted : AcceptedFrom llama s.kv tokens s.batchCapacity (asUsize s.nCur) 0 := by
    intro j _ hj hdvd
    rcases Nat.eq_zero_or_pos j with rfl | hpos
    · simpa [chunkAt] using h.accepted
    · exact hlater j hpos hj hdvd
  obtain ⟨batch, hloop⟩ := prefillLoop_accepted haccepted (s := s) (by simp) (.inr (dvd_zero _))
    (Nat.le_add_right tokens.length 0)
  refine ⟨batch, ?_⟩
  rw [prefill, if_neg h.ne_nil]
  simp only [if_neg (not_le.mpr h.room), hloop]

/-! ### Pushed tokens -/

lemma pushToken_eq (token : Token) (s : Session Token) : pushToken llama token s =
    match llama.refuses s.kv [⟨token, s.nCur, true⟩] with
    | some e => (.error s!"decode step: {e}",
        { s with batch := [⟨token, s.nCur, true⟩], nCur := s.nCur + 1 })
    | none   => (.ok (),
        { s with
          kv := s.kv ++ [token]
          batch := [⟨token, s.nCur, true⟩]
          nCur := s.nCur + 1 }) := by
  have hadd : add llama [⟨token, s.nCur, true⟩] { s with batch := [] } =
      (.ok (), { s with batch := [⟨token, s.nCur, true⟩] }) :=
    add_eq (by exact s.capacity_pos)
  rw [pushToken, hadd]
  simp only [decode]
  cases llama.refuses s.kv [⟨token, s.nCur, true⟩] with
  | some e => rfl
  | none => simp

end Session

/-! ### The position of the next token -/

namespace Session

/-- The position is the number of committed tokens, which fit into the context. -/
structure Positioned (s : Session Token) : Prop where
  nCur_eq : s.nCur.toInt = s.kv.length
  le_max : s.kv.length ≤ s.maxSeqLen.toNat

/-- Where the context ends, nothing is committed. -/
def Bounded (llama : LlamaCpp Token) (maxSeqLen : UInt32) : Prop :=
  ∀ kv batch, ∀ e ∈ batch, (maxSeqLen.toNat : ℤ) ≤ e.pos.toInt → llama.refuses kv batch ≠ none

/-- Positions up to `n` are `i32`. -/
def Fits (n : ℕ) : Prop := n < 2 ^ 31

instance (n : ℕ) : Decidable (Fits n) := Nat.decLt _ _

variable {llama : LlamaCpp Token} {s : Session Token} {tokens : List Token}

lemma toInt_asI32 {n : ℕ} (h : Fits n) : (asI32 n).toInt = n := Int32.toInt_ofNat_of_lt h

lemma Positioned.asUsize_nCur (h : s.Positioned) : asUsize s.nCur = s.kv.length := by
  have hlt : s.kv.length < 2 ^ 64 :=
    lt_of_le_of_lt h.le_max (by have := s.maxSeqLen.toNat_lt; omega)
  rw [asUsize, h.nCur_eq]
  omega

lemma positioned_fresh (batchCapacity : ℕ) (capacity_pos : 0 < batchCapacity) (maxSeqLen : UInt32) :
    (fresh batchCapacity capacity_pos maxSeqLen : Session Token).Positioned :=
  ⟨rfl, Nat.zero_le _⟩

lemma positioned_clearKv (s : Session Token) : s.clearKv.Positioned := ⟨rfl, Nat.zero_le _⟩

/-- Once a prompt is in, all of it gets in, at positions that are `i32`. -/
def PromptAccepted (llama : LlamaCpp Token) (s : Session Token) (tokens : List Token) : Prop :=
  Begins llama s tokens →
    AcceptedFrom llama s.kv tokens s.batchCapacity (asUsize s.nCur) 1 ∧
      Fits (s.kv.length + tokens.length)

/-- A prompt leaves the session positioned: refused with nothing committed, or committed. -/
lemma Positioned.prefill (h : s.Positioned) (haccepted : PromptAccepted llama s tokens) :
    ((prefill llama tokens s).2).Positioned ∧
      ((∃ e, (prefill llama tokens s).1 = .error e) ∨
        Begins llama s tokens ∧ (∃ n, (prefill llama tokens s).1 = .ok n) ∧
          (prefill llama tokens s).2.kv = s.kv ++ tokens ∧
          (prefill llama tokens s).2.maxSeqLen = s.maxSeqLen) := by
  by_cases hbegins : Begins llama s tokens
  · obtain ⟨hlater, hfits⟩ := haccepted hbegins
    obtain ⟨batch, heq⟩ := prefill_of_begins hbegins hlater
    have hend : (asUsize s.nCur + tokens.length) % 2 ^ 64 = s.kv.length + tokens.length := by
      rw [h.asUsize_nCur]
      exact Nat.mod_eq_of_lt (lt_trans hfits (by decide))
    have hroom := hbegins.room
    rw [hend] at hroom heq
    rw [heq]
    refine ⟨⟨?_, ?_⟩, .inr ⟨hbegins, ⟨_, rfl⟩, rfl, rfl⟩⟩
    · simp only [toInt_asI32 hfits, List.length_append]
    · simpa using hroom.le
  · obtain ⟨e, batch, heq⟩ := prefill_of_not_begins hbegins
    rw [heq]
    exact ⟨⟨h.nCur_eq, h.le_max⟩, .inl ⟨e, rfl⟩⟩

/-- The token is committed, at a position that is `i32`. -/
def PushAccepted (llama : LlamaCpp Token) (kv : List Token) (token : Token) : Prop :=
  llama.refuses kv [⟨token, asI32 kv.length, true⟩] = none ∧ Fits (kv.length + 1)

lemma Positioned.nCur_eq_asI32 (h : s.Positioned) (hfits : Fits s.kv.length) :
    s.nCur = asI32 s.kv.length :=
  Int32.toInt.inj (by rw [h.nCur_eq, toInt_asI32 hfits])

lemma Positioned.pushToken (h : s.Positioned) (hbounded : Bounded llama s.maxSeqLen) {token : Token}
    (haccepted : PushAccepted llama s.kv token) :
    ∃ batch, Session.pushToken llama token s = (.ok (),
        ⟨s.kv ++ [token], batch, s.batchCapacity, s.capacity_pos, s.nCur + 1, s.maxSeqLen⟩) ∧
      ((Session.pushToken llama token s).2).Positioned := by
  obtain ⟨hnone, hfits⟩ := haccepted
  have hfits' : Fits s.kv.length := Nat.lt_of_succ_lt hfits
  have hpos := h.nCur_eq_asI32 hfits'
  rw [← hpos] at hnone
  have heq : Session.pushToken llama token s = _ := pushToken_eq token s
  rw [hnone] at heq
  refine ⟨_, heq, ?_⟩
  rw [heq]
  constructor
  · have hsucc : asI32 s.kv.length + 1 = asI32 (s.kv.length + 1) :=
      (Int32.ofNat_add s.kv.length 1).symm
    simp only [hpos, hsucc, List.length_append, List.length_singleton]
    exact toInt_asI32 hfits
  · have hlt : s.kv.length < s.maxSeqLen.toNat := by
      by_contra hge
      refine hbounded s.kv [⟨token, s.nCur, true⟩] _ List.mem_cons_self ?_ hnone
      rw [h.nCur_eq]
      exact_mod_cast not_lt.mp hge
    simpa using hlt

/-- Every token that the model goes on with is committed. -/
def PushesAccepted (llama : LlamaCpp Token) : ℕ → List Token → Prop
  | 0, _          => True
  | turns + 1, kv => llama.isEog (llama.sample kv) = false →
    PushAccepted llama kv (llama.sample kv) ∧ PushesAccepted llama turns (kv ++ [llama.sample kv])

lemma Positioned.generateLoop (h : s.Positioned) (hbounded : Bounded llama s.maxSeqLen) {turns : ℕ}
    (haccepted : PushesAccepted llama turns s.kv) (produced : List Token) :
    ((generateLoop llama turns produced s).2).Positioned := by
  induction turns generalizing s produced with
  | zero => exact h
  | succ turns ih =>
    rw [Session.generateLoop, step]
    cases heog : llama.isEog (llama.sample s.kv) with
    | true => simpa [heog] using h
    | false =>
      obtain ⟨hpush, hrest⟩ := haccepted heog
      obtain ⟨batch, heq, hpositioned⟩ := h.pushToken hbounded hpush
      rw [heq] at hpositioned
      simp only [Bool.false_eq_true, if_false, heq]
      exact ih hpositioned hbounded hrest _

/-! ### Runs -/

/-- A call of one of the operations. -/
inductive Call (Token : Type) where
  | prefill (promptTokens : List Token)
  | pushToken (token : Token)
  | generateRaw (promptTokens : List Token) (maxTokens : ℕ)
  | clearKv

/-- The session that a call leaves, whether it succeeds or fails. -/
def Call.run (llama : LlamaCpp Token) (s : Session Token) : Call Token → Session Token
  | .prefill promptTokens               => (Session.prefill llama promptTokens s).2
  | .pushToken token                    => (Session.pushToken llama token s).2
  | .generateRaw promptTokens maxTokens => (Session.generateRaw llama promptTokens maxTokens s).2
  | .clearKv                            => s.clearKv

/-- No decode of the call is refused but the first one of a prompt, and all positions are `i32`. -/
def Call.Accepted (llama : LlamaCpp Token) (s : Session Token) : Call Token → Prop
  | .prefill promptTokens               => PromptAccepted llama s promptTokens
  | .pushToken token                    => PushAccepted llama s.kv token
  | .generateRaw promptTokens maxTokens => PromptAccepted llama s promptTokens ∧
    (Begins llama s promptTokens → PushesAccepted llama maxTokens (s.kv ++ promptTokens))
  | .clearKv                            => True

/-- What one call preserves. -/
lemma Positioned.run (h : s.Positioned) (hbounded : Bounded llama s.maxSeqLen) {call : Call Token}
    (haccepted : call.Accepted llama s) : (call.run llama s).Positioned := by
  cases call with
  | prefill promptTokens => exact (h.prefill haccepted).1
  | pushToken token =>
    obtain ⟨_, -, hpositioned⟩ := h.pushToken hbounded haccepted
    exact hpositioned
  | generateRaw promptTokens maxTokens =>
    obtain ⟨hprompt, hpushes⟩ := haccepted
    have hprefill := h.prefill hprompt
    rw [Call.run, Session.generateRaw]
    cases heq : Session.prefill llama promptTokens s with
    | mk result s' =>
      rw [heq] at hprefill
      cases result with
      | error e => exact hprefill.1
      | ok n =>
        obtain ⟨hpositioned, ⟨e, he⟩ | ⟨hbegins, -, hkv, hmax⟩⟩ := hprefill
        · cases he
        · have hgenerate := hpushes hbegins
          simp only at hkv hmax
          rw [← hkv] at hgenerate
          rw [← hmax] at hbounded
          exact hpositioned.generateLoop hbounded hgenerate []
  | clearKv => exact positioned_clearKv s

/-- Sessions from their load on, under calls that are allowed in the state they find. Each call
meets a llama.cpp of its own, so that any decode may fail. -/
def calls (allowed : LlamaCpp Token → Session Token → Call Token → Prop) :
    Machine (Session Token) where
  init s := ∃ batchCapacity capacity_pos maxSeqLen, s = fresh batchCapacity capacity_pos maxSeqLen
  step s t := ∃ llama call, Bounded llama s.maxSeqLen ∧ allowed llama s call ∧ t = call.run llama s

/-- Where no decode fails but the first one of a prompt, the position is the number of committed
tokens after every call. -/
theorem positioned_of_reachable {s : Session Token}
    (h : (calls fun llama s call => call.Accepted llama s).Reachable s) : s.Positioned := by
  apply h.invariant
  · rintro s ⟨batchCapacity, capacity_pos, maxSeqLen, rfl⟩
    exact positioned_fresh batchCapacity capacity_pos maxSeqLen
  · rintro s t ⟨llama, call, hbounded, haccepted, rfl⟩ hs
    exact hs.run hbounded haccepted

/-- A llama.cpp that commits whatever fits into the context. -/
def demoLlama (maxSeqLen : UInt32) : LlamaCpp ℕ where
  sample kv := kv.length
  isEog token := token = 4
  refuses _ batch :=
    if batch.any fun e => maxSeqLen.toNat ≤ e.pos.toInt then some "NoKvCacheSlot" else none
  insufficientSpace n := s!"Insufficient Space of {n}"

lemma bounded_demoLlama (maxSeqLen : UInt32) : Bounded (demoLlama maxSeqLen) maxSeqLen := by
  intro kv batch e he hpos
  have hany : ∃ e ∈ batch, (maxSeqLen.toNat : ℤ) ≤ e.pos.toInt := ⟨e, he, hpos⟩
  simp [demoLlama, hany]

def demoSession : Session ℕ := fresh 2 (by decide) 8

/-- A prompt in two chunks, and a token that the model goes on with. -/
theorem positioned_of_reachable_demo :
    (Call.run (demoLlama 8) demoSession (.generateRaw [7, 8, 9] 3)).Positioned := by
  apply positioned_of_reachable
  refine ⟨demoSession, ⟨2, by decide, 8, rfl⟩, .single ⟨demoLlama 8, .generateRaw [7, 8, 9] 3,
    bounded_demoLlama 8, ⟨fun _ => ⟨?_, by decide⟩, fun _ => ?_⟩, rfl⟩⟩
  · intro j hj hlt _
    simp only [List.length_cons, List.length_nil] at hlt
    interval_cases j <;> decide
  · exact fun _ => ⟨⟨by decide, by decide⟩, fun h => absurd h (by decide)⟩

/-- A llama.cpp that refuses every batch. -/
def refusing : LlamaCpp ℕ := { demoLlama 8 with refuses := fun _ _ => some "NoKvCacheSlot" }

/-- A token whose decode fails moves the position, but is not committed. -/
theorem failed_push_misplaces :
    ¬ ∀ s : Session ℕ, (calls fun _ _ _ => True).Reachable s → s.Positioned := by
  intro h
  have hreachable : (calls fun _ _ _ => True).Reachable
      (Call.run refusing demoSession (.pushToken 7)) :=
    ⟨demoSession, ⟨2, by decide, 8, rfl⟩,
      .single ⟨refusing, .pushToken 7, by simp [Bounded, refusing], trivial, rfl⟩⟩
  have hpos := (h _ hreachable).nCur_eq
  revert hpos
  decide

end Session
end ModelApi.Llama
