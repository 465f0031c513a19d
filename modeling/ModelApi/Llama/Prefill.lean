import ModelApi.Lib.Loop
import ModelApi.Llama.Session

/-!
# The calls into llama.cpp

The operations of the session once more, with a log of the batches they decode and of the indices
they sample at, and with a prompt loop that may run forever. Without the log they are the
operations of the session.
-/

namespace ModelApi.Llama

open Lib

variable {Token : Type}

/-- A call into llama.cpp. -/
inductive LlamaCall (Token : Type) where
  | decode (batch : List (Entry Token)) (accepted : Bool)
  /-- `sample(ctx, idx)`, with the batch the session has then -/
  | sample (batch : List (Entry Token)) (idx : Int32)
  deriving DecidableEq

/-- A session and the calls it has made so far. -/
structure Logged (Token : Type) where
  session : Session Token
  log : List (LlamaCall Token)

namespace Logged

variable (llama : LlamaCpp Token)

def decode (st : Logged Token) : Except String Unit × Logged Token :=
  match Session.decode llama st.session with
  | (.error e, s) => (.error e, ⟨s, st.log ++ [.decode st.session.batch false]⟩)
  | (.ok (), s)   => (.ok (), ⟨s, st.log ++ [.decode st.session.batch true]⟩)

/-- One turn of `while i < total`. -/
def prefillTurn (promptTokens : List Token) (startPos : ℕ) (x : ℕ × Logged Token) :
    Except Fault ((ℕ × Logged Token) ⊕ (Except String Unit × Logged Token)) :=
  if x.1 < promptTokens.length then
    let stop := min (x.1 + x.2.session.batchCapacity) promptTokens.length
    match Session.add llama (Session.chunkEntries promptTokens startPos x.1 stop)
      { x.2.session with batch := [] } with
    | (.error e, s) => .ok (.inr (.error s!"batch add prefill: {e}", ⟨s, x.2.log⟩))
    | (.ok (), s)   =>
      match decode llama ⟨s, x.2.log⟩ with
      | (.error e, st) => .ok (.inr (.error s!"decode prefill: {e}", st))
      | (.ok (), st)   => .ok (.inl (stop, st))
  else .ok (.inr (.ok (), x.2))

def prefill (promptTokens : List Token) (st : Logged Token) :
    Except Fault (Except String Int32 × Logged Token) :=
  if promptTokens = [] then .ok (.error "empty prompt", st)
  else
    let startPos := asUsize st.session.nCur
    let endTotal := (startPos + promptTokens.length) % 2 ^ 64
    if st.session.maxSeqLen.toNat ≤ endTotal then
      .ok (.error (s!"prompt {promptTokens.length} tokens at pos {startPos} exceeds context " ++
        s!"{st.session.maxSeqLen.toNat}"), st)
    else do
      match ← loop (prefillTurn llama promptTokens startPos) (promptTokens.length + 1) (0, st) with
      | (.error e, st) => return (.error e, st)
      | (.ok (), st)   =>
        return (.ok (asI32 endTotal),
          { st with session := { st.session with nCur := asI32 endTotal } })

def step (st : Logged Token) : Option Token × Logged Token :=
  let idx := asI32 st.session.batch.length - 1
  (Session.step llama st.session, { st with log := st.log ++ [.sample st.session.batch idx] })

def pushToken (token : Token) (st : Logged Token) : Except String Unit × Logged Token :=
  match Session.add llama [⟨token, st.session.nCur, true⟩] { st.session with batch := [] } with
  | (.error e, s) => (.error s!"batch add: {e}", ⟨s, st.log⟩)
  | (.ok (), s)   =>
    match decode llama ⟨{ s with nCur := s.nCur + 1 }, st.log⟩ with
    | (.error e, st) => (.error s!"decode step: {e}", st)
    | (.ok (), st)   => (.ok (), st)

/-- The loop of `generate_raw`, with the number of turns left and the tokens produced. -/
def generateLoop : ℕ → List Token → Logged Token → List Token × Logged Token
  | 0, produced, st         => (produced, st)
  | turns + 1, produced, st =>
    match step llama st with
    | (none, st)       => (produced, st)
    | (some token, st) =>
      match pushToken llama token st with
      | (.error _, st) => (produced ++ [token], st)
      | (.ok (), st)   => generateLoop turns (produced ++ [token]) st

def generateRaw (promptTokens : List Token) (maxTokens : ℕ) (st : Logged Token) :
    Except Fault (Except String (List Token) × Logged Token) := do
  match ← prefill llama promptTokens st with
  | (.error e, st) => return (.error e, st)
  | (.ok _, st)    =>
    let (produced, st) := generateLoop llama maxTokens [] st
    return (.ok produced, st)

variable {llama} {st : Logged Token} {tokens : List Token}

/-! ### Chunks of a prompt -/

/-- The prompt in one batch. -/
def oneShot (tokens : List Token) (startPos : ℕ) : List (Entry Token) :=
  tokens.mapIdx fun j tok => ⟨tok, asI32 (startPos + j), j = tokens.length - 1⟩

lemma length_oneShot (startPos : ℕ) : (oneShot tokens startPos).length = tokens.length :=
  List.length_mapIdx

/-- A chunk is a part of the one batch. -/
lemma chunkEntries_eq {startPos i stop : ℕ} (hstop : stop ≤ tokens.length) :
    Session.chunkEntries tokens startPos i stop = ((oneShot tokens startPos).take stop).drop i := by
  apply List.ext_getElem
  · simp [Session.chunkEntries, oneShot]
  · intro j h₁ h₂
    simp only [Session.chunkEntries, List.length_mapIdx, List.length_drop, List.length_take] at h₁
    have hlast : i + j = tokens.length - 1 → stop = tokens.length := by omega
    simpa [Session.chunkEntries, oneShot, Nat.add_assoc] using hlast

/-- Batches up to the `i`-th token, with the batch the session has. -/
structure Batches (tokens : List Token) (startPos capacity i : ℕ) (batch : List (Entry Token))
    (batches : List (List (Entry Token))) : Prop where
  flatten : batches.flatten = (oneShot tokens startPos).take i
  ne_nil : ∀ b ∈ batches, b ≠ []
  length_le : ∀ b ∈ batches, b.length ≤ capacity
  last : 0 < i → batches.getLast? = some batch

lemma chunkAt_ne_nil (s : Session Token) {startPos i : ℕ} (hi : i < tokens.length) :
    Session.chunkAt s tokens startPos i ≠ [] := by
  apply List.ne_nil_of_length_pos
  have hpos := s.capacity_pos
  simp only [Session.chunkAt, Session.chunkEntries, List.length_mapIdx, List.length_drop,
    List.length_take]
  omega

lemma Batches.append {s : Session Token} {startPos i : ℕ} {batch : List (Entry Token)}
    {batches : List (List (Entry Token))}
    (h : Batches tokens startPos s.batchCapacity i batch batches) (hi : i < tokens.length) :
    Batches tokens startPos s.batchCapacity (min (i + s.batchCapacity) tokens.length)
      (Session.chunkAt s tokens startPos i)
      (batches ++ [Session.chunkAt s tokens startPos i]) where
  flatten := by
    have hle : i ≤ min (i + s.batchCapacity) tokens.length := le_min (Nat.le_add_right ..) hi.le
    have htake : (oneShot tokens startPos).take i =
        ((oneShot tokens startPos).take (min (i + s.batchCapacity) tokens.length)).take i := by
      rw [List.take_take, min_eq_left hle]
    rw [List.flatten_append, List.flatten_singleton, h.flatten, Session.chunkAt,
      chunkEntries_eq (min_le_right _ _), htake, List.take_append_drop]
  ne_nil := by
    simp only [List.mem_append, List.mem_singleton]
    rintro b (hb | rfl)
    · exact h.ne_nil b hb
    · exact chunkAt_ne_nil s hi
  length_le := by
    simp only [List.mem_append, List.mem_singleton]
    rintro b (hb | rfl)
    · exact h.length_le b hb
    · exact Session.length_chunkAt_le startPos i
  last _ := List.getLast?_concat

/-- The log of batches that were all accepted. -/
def acceptedLog (batches : List (List (Entry Token))) : List (LlamaCall Token) :=
  batches.map fun b => .decode b true

/-- Before a turn of the prompt loop: the batches of the tokens up to `i` have been accepted, and
the session is where its own loop would be. -/
structure Prefilling (llama : LlamaCpp Token) (tokens : List Token) (startPos : ℕ)
    (s₀ : Session Token) (x : ℕ × Logged Token) : Prop where
  le : x.1 ≤ tokens.length
  capacity : x.2.session.batchCapacity = s₀.batchCapacity
  log : ∃ batches, x.2.log = acceptedLog batches ∧
    Batches tokens startPos s₀.batchCapacity x.1 x.2.session.batch batches
  erased : ∃ fuel, tokens.length ≤ fuel + x.1 ∧
    Session.prefillLoop llama tokens startPos tokens.length 0 s₀ =
      Session.prefillLoop llama tokens startPos fuel x.1 x.2.session

/-- Behind the prompt loop: all of the prompt has been accepted, or a batch was refused. -/
structure Prefilled (llama : LlamaCpp Token) (tokens : List Token) (startPos : ℕ)
    (s₀ : Session Token) (r : Except String Unit × Logged Token) : Prop where
  decodes : ∀ call ∈ r.2.log, ∃ b accepted, call = .decode b accepted
  outcome : (r.1 = .ok () ∧ ∃ batches, r.2.log = acceptedLog batches ∧
      Batches tokens startPos s₀.batchCapacity tokens.length r.2.session.batch batches) ∨
    ∃ e b, r.1 = .error e ∧ .decode b false ∈ r.2.log
  erased : Session.prefillLoop llama tokens startPos tokens.length 0 s₀ = (r.1, r.2.session)

lemma exists_decode_of_mem {batches : List (List (Entry Token))} {call : LlamaCall Token}
    (h : call ∈ acceptedLog batches) : ∃ b accepted, call = .decode b accepted := by
  obtain ⟨b, -, rfl⟩ := List.mem_map.mp h
  exact ⟨b, true, rfl⟩

/-- A turn decodes the next chunk. -/
lemma prefillTurn_eq {startPos i : ℕ} (hi : i < tokens.length) :
    prefillTurn llama tokens startPos (i, st) =
      match llama.refuses st.session.kv (Session.chunkAt st.session tokens startPos i) with
      | some e => .ok (.inr (.error s!"decode prefill: {e}",
          ⟨{ st.session with batch := Session.chunkAt st.session tokens startPos i },
            st.log ++ [.decode (Session.chunkAt st.session tokens startPos i) false]⟩))
      | none   => .ok (.inl (min (i + st.session.batchCapacity) tokens.length,
          ⟨{ st.session with
              kv := st.session.kv ++
                (tokens.take (min (i + st.session.batchCapacity) tokens.length)).drop i
              batch := Session.chunkAt st.session tokens startPos i },
            st.log ++ [.decode (Session.chunkAt st.session tokens startPos i) true]⟩)) := by
  have hadd : Session.add llama (Session.chunkAt st.session tokens startPos i)
      { st.session with batch := [] } =
        (.ok (), { st.session with batch := Session.chunkAt st.session tokens startPos i }) :=
    Session.add_eq (by simpa using Session.length_chunkAt_le startPos i)
  simp only [Session.chunkAt] at hadd ⊢
  simp only [prefillTurn, if_pos hi, hadd, decode, Session.decode]
  cases llama.refuses st.session.kv (Session.chunkEntries tokens startPos i _) with
  | some e => rfl
  | none => simp only [Session.map_token_chunkEntries]

/-- One turn goes on with one more batch, or leaves. -/
lemma Prefilling.turn {startPos : ℕ} {s₀ : Session Token} {x : ℕ × Logged Token}
    (h : Prefilling llama tokens startPos s₀ x) :
    (∃ x', prefillTurn llama tokens startPos x = .ok (.inl x') ∧
      Prefilling llama tokens startPos s₀ x' ∧ tokens.length - x'.1 < tokens.length - x.1) ∨
    ∃ r, prefillTurn llama tokens startPos x = .ok (.inr r) ∧
      Prefilled llama tokens startPos s₀ r := by
  obtain ⟨i, st⟩ := x
  obtain ⟨batches, hlog, hbatches⟩ := h.log
  obtain ⟨fuel, hfuel, herased⟩ := h.erased
  simp only at hlog hfuel
  by_cases hi : i < tokens.length
  · obtain ⟨fuel, rfl⟩ : ∃ n, fuel = n + 1 := ⟨fuel - 1, by omega⟩
    rw [Session.prefillLoop_succ hi] at herased
    rw [prefillTurn_eq hi]
    cases hrefuses : llama.refuses st.session.kv (Session.chunkAt st.session tokens startPos i) with
    | some e =>
      rw [hrefuses] at herased
      refine .inr ⟨_, rfl, ?_, .inr ⟨_, _, rfl, List.mem_append_right _ List.mem_cons_self⟩,
        herased⟩
      intro call hcall
      rcases List.mem_append.mp hcall with hold | hnew
      · exact exists_decode_of_mem (hlog ▸ hold)
      · exact ⟨_, _, List.mem_singleton.mp hnew⟩
    | none =>
      rw [hrefuses] at herased
      have hcapacity : st.session.batchCapacity = s₀.batchCapacity := h.capacity
      have happend : Batches tokens startPos s₀.batchCapacity
          (min (i + st.session.batchCapacity) tokens.length)
          (Session.chunkAt st.session tokens startPos i)
          (batches ++ [Session.chunkAt st.session tokens startPos i]) := by
        rw [← hcapacity] at hbatches ⊢
        exact hbatches.append hi
      have hpos := st.session.capacity_pos
      refine .inl ⟨_, rfl, ⟨min_le_right _ _, hcapacity, ⟨_, ?_, happend⟩, fuel, ?_, herased⟩, ?_⟩
      · simp [hlog, acceptedLog]
      · simp only
        omega
      · simp only
        omega
  · have hturn : prefillTurn llama tokens startPos (i, st) = .ok (.inr (.ok (), st)) := if_neg hi
    refine .inr ⟨_, hturn, fun call hcall => exists_decode_of_mem (hlog ▸ hcall),
      .inl ⟨rfl, ?_⟩, ?_⟩
    · have hend : i = tokens.length := le_antisymm h.le (not_lt.mp hi)
      exact ⟨batches, hlog, hend ▸ hbatches⟩
    · rw [herased]
      cases fuel with
      | zero => rfl
      | succ fuel => exact if_neg hi

/-! ### Prompts -/

/-- How a prompt ends: with an error, behind a refused batch if there was anything to decode, or
with all of it accepted. -/
structure Prompted (llama : LlamaCpp Token) (tokens : List Token) (s : Session Token)
    (result : Except String Int32) (st : Logged Token) : Prop where
  erased : Session.prefill llama tokens s = (result, st.session)
  decodes : ∀ call ∈ st.log, ∃ b accepted, call = .decode b accepted
  outcome : (∃ e, result = .error e ∧
      (tokens ≠ [] → (asUsize s.nCur + tokens.length) % 2 ^ 64 < s.maxSeqLen.toNat →
        ∃ b, .decode b false ∈ st.log)) ∨
    tokens ≠ [] ∧ result = .ok (asI32 ((asUsize s.nCur + tokens.length) % 2 ^ 64)) ∧
      ∃ batches, st.log = acceptedLog batches ∧
        Batches tokens (asUsize s.nCur) s.batchCapacity tokens.length st.session.batch batches

/-- Every prompt returns. -/
lemma prefill_returns (llama : LlamaCpp Token) (tokens : List Token) (s : Session Token) :
    ∃ result st, prefill llama tokens ⟨s, []⟩ = .ok (result, st) ∧
      Prompted llama tokens s result st := by
  have hnone : ∀ call ∈ ([] : List (LlamaCall Token)), ∃ b accepted, call = .decode b accepted :=
    fun _ h => absurd h List.not_mem_nil
  by_cases hnil : tokens = []
  · exact ⟨_, _, if_pos hnil, if_pos hnil, hnone, .inl ⟨_, rfl, fun h => absurd hnil h⟩⟩
  by_cases hroom : s.maxSeqLen.toNat ≤ (asUsize s.nCur + tokens.length) % 2 ^ 64
  · refine ⟨_, _, by rw [prefill, if_neg hnil]; exact if_pos hroom, ?_, hnone,
      .inl ⟨_, rfl, fun _ h => absurd hroom (not_le.mpr h)⟩⟩
    rw [Session.prefill, if_neg hnil]
    exact if_pos hroom
  have hstart : Prefilling llama tokens (asUsize s.nCur) s (0, ⟨s, []⟩) :=
    ⟨Nat.zero_le _, rfl, ⟨[], rfl, rfl, by simp, by simp, fun h => absurd h (lt_irrefl 0)⟩,
      tokens.length, le_rfl, rfl⟩
  obtain ⟨⟨result, st⟩, hloop, hprefilled⟩ := loop_returns
    (I := Prefilling llama tokens (asUsize s.nCur) s) (m := fun x => tokens.length - x.1)
    (fun x hx => hx.turn) hstart (Nat.lt_succ_of_le (Nat.sub_le _ _))
  have herased := hprefilled.erased
  cases result with
  | error e =>
    refine ⟨.error e, st, ?_, ?_, hprefilled.decodes, .inl ⟨e, rfl, fun _ _ => ?_⟩⟩
    · rw [prefill, if_neg hnil]
      simp only [if_neg hroom, hloop]
      rfl
    · rw [Session.prefill, if_neg hnil]
      simp only [if_neg hroom, herased]
    · obtain ⟨hok, -⟩ | ⟨_, b, -, hb⟩ := hprefilled.outcome
      · cases hok
      · exact ⟨b, hb⟩
  | ok u =>
    refine ⟨_, { st with session := { st.session with
        nCur := asI32 ((asUsize s.nCur + tokens.length) % 2 ^ 64) } }, ?_, ?_,
      hprefilled.decodes, .inr ⟨hnil, rfl, ?_⟩⟩
    · rw [prefill, if_neg hnil]
      simp only [if_neg hroom, hloop]
      rfl
    · rw [Session.prefill, if_neg hnil]
      simp only [if_neg hroom, herased]
    · obtain ⟨-, hbatches⟩ | ⟨_, b, herror, -⟩ := hprefilled.outcome
      · exact hbatches
      · cases herror

/-! ### Sampling -/

/-- The index names a token of the batch whose logits were requested. -/
def Sampled (batch : List (Entry Token)) (idx : Int32) : Prop :=
  0 ≤ idx.toInt ∧ ∃ e, batch[idx.toInt.toNat]? = some e ∧ e.logits = true

/-- Every sample is taken right behind the accepted decode of the batch it indexes. -/
def Legal (log : List (LlamaCall Token)) : Prop :=
  ∀ before batch idx behind, log = before ++ .sample batch idx :: behind →
    (∃ earlier, before = earlier ++ [.decode batch true]) ∧ Sampled batch idx

/-- A log is split at its last call or before it. -/
lemma append_singleton_eq {log before behind : List (LlamaCall Token)} {last call : LlamaCall Token}
    (h : log ++ [last] = before ++ call :: behind) :
    (log = before ∧ last = call) ∨ ∃ rest, log = before ++ call :: rest := by
  rcases List.eq_nil_or_concat behind with rfl | ⟨rest, last', rfl⟩
  · obtain ⟨hlog, hlast⟩ := List.append_inj' h rfl
    exact .inl ⟨hlog, List.head_eq_of_cons_eq hlast⟩
  · rw [List.concat_eq_append, ← List.cons_append, ← List.append_assoc] at h
    exact .inr ⟨rest, (List.append_inj' h rfl).1⟩

lemma legal_decodes {log : List (LlamaCall Token)}
    (h : ∀ call ∈ log, ∃ b accepted, call = .decode b accepted) : Legal log := by
  rintro before batch idx behind rfl
  obtain ⟨b, accepted, hcall⟩ := h _ (List.mem_append_right _ List.mem_cons_self)
  cases hcall

lemma Legal.decode {log : List (LlamaCall Token)} (h : Legal log) (batch : List (Entry Token))
    (accepted : Bool) : Legal (log ++ [.decode batch accepted]) := by
  intro before batch' idx behind heq
  obtain ⟨-, hcall⟩ | ⟨rest, hlog⟩ := append_singleton_eq heq
  · cases hcall
  · exact h before batch' idx rest hlog

lemma Legal.sample {log : List (LlamaCall Token)} (h : Legal log) {batch : List (Entry Token)}
    {idx : Int32} (hlast : ∃ earlier, log = earlier ++ [.decode batch true])
    (hsampled : Sampled batch idx) : Legal (log ++ [.sample batch idx]) := by
  intro before batch' idx' behind heq
  obtain ⟨rfl, hcall⟩ | ⟨rest, hlog⟩ := append_singleton_eq heq
  · cases hcall
    exact ⟨hlast, hsampled⟩
  · exact h before batch' idx' rest hlog

/-- The last token of a batch can be sampled at, if its logits were requested. -/
lemma sampled_last {batch : List (Entry Token)} {e : Entry Token}
    (hlast : batch.getLast? = some e) (hlogits : e.logits = true) (hlen : batch.length < 2 ^ 31) :
    Sampled batch (asI32 batch.length - 1) := by
  obtain ⟨earlier, rfl⟩ := List.getLast?_eq_some_iff.mp hlast
  rw [List.length_append, List.length_singleton] at hlen ⊢
  have hidx : asI32 (earlier.length + 1) - 1 = asI32 earlier.length := by
    have hsucc : asI32 (earlier.length + 1) = asI32 earlier.length + 1 :=
      Int32.ofNat_add earlier.length 1
    rw [hsucc, Int32.add_sub_cancel]
  have hint : (asI32 earlier.length).toInt = earlier.length :=
    Session.toInt_asI32 (Nat.lt_of_succ_lt hlen)
  rw [hidx, Sampled, hint]
  exact ⟨Int.natCast_nonneg _, e, by simp, hlogits⟩

/-- The session has just decoded a batch that it can be sampled behind. -/
structure Ready (st : Logged Token) : Prop where
  legal : Legal st.log
  decoded : ∃ earlier, st.log = earlier ++ [.decode st.session.batch true]
  sampled : Sampled st.session.batch (asI32 st.session.batch.length - 1)

lemma pushToken_eq (token : Token) : pushToken llama token st =
    match llama.refuses st.session.kv [⟨token, st.session.nCur, true⟩] with
    | some e => (.error s!"decode step: {e}",
        ⟨{ st.session with
            batch := [⟨token, st.session.nCur, true⟩]
            nCur := st.session.nCur + 1 },
          st.log ++ [.decode [⟨token, st.session.nCur, true⟩] false]⟩)
    | none   => (.ok (),
        ⟨{ st.session with
            kv := st.session.kv ++ [token]
            batch := [⟨token, st.session.nCur, true⟩]
            nCur := st.session.nCur + 1 },
          st.log ++ [.decode [⟨token, st.session.nCur, true⟩] true]⟩) := by
  have hadd : Session.add llama [⟨token, st.session.nCur, true⟩] { st.session with batch := [] } =
      (.ok (), { st.session with batch := [⟨token, st.session.nCur, true⟩] }) :=
    Session.add_eq (by exact st.session.capacity_pos)
  simp only [pushToken, hadd, decode, Session.decode]
  cases llama.refuses st.session.kv [⟨token, st.session.nCur, true⟩] with
  | some e => rfl
  | none => rfl

/-- Whatever llama.cpp accepts, chooses or refuses: the loop samples legally. -/
lemma Ready.generateLoop (h : Ready st) (turns : ℕ) (produced : List Token) :
    Legal (generateLoop llama turns produced st).2.log := by
  induction turns generalizing st produced with
  | zero => exact h.legal
  | succ turns ih =>
    have hlegal := h.legal.sample h.decoded h.sampled
    rw [Logged.generateLoop, step]
    cases Session.step llama st.session with
    | none => exact hlegal
    | some token =>
      simp only [pushToken_eq]
      cases llama.refuses st.session.kv [⟨token, st.session.nCur, true⟩] with
      | some e => exact hlegal.decode _ _
      | none =>
        refine ih ⟨hlegal.decode _ _, ⟨_, rfl⟩, ?_⟩ _
        exact sampled_last rfl rfl (Nat.one_lt_two_pow (by decide))

/-! ### The whole generation -/

/-- The batches of a log, in order. -/
def decoded (log : List (LlamaCall Token)) : List (List (Entry Token)) :=
  log.filterMap fun
    | .decode b _ => some b
    | .sample _ _ => none

/-- No decode has failed. -/
def NoFailure (log : List (LlamaCall Token)) : Prop := ∀ b, .decode b false ∉ log

@[simp] lemma decoded_acceptedLog (batches : List (List (Entry Token))) :
    decoded (acceptedLog batches) = batches := by
  rw [decoded, acceptedLog, List.filterMap_map]
  exact List.filterMap_some

lemma generateLoop_erased (turns : ℕ) (produced : List Token) :
    Session.generateLoop llama turns produced st.session =
      ((generateLoop llama turns produced st).1,
        (generateLoop llama turns produced st).2.session) := by
  induction turns generalizing st produced with
  | zero => rfl
  | succ turns ih =>
    rw [Session.generateLoop, generateLoop, step]
    cases Session.step llama st.session with
    | none => rfl
    | some token =>
      simp only [pushToken_eq, Session.pushToken_eq]
      cases llama.refuses st.session.kv [⟨token, st.session.nCur, true⟩] with
      | some e => rfl
      | none => simp only [← ih]

/-- Without the log, a generation is that of the session. -/
lemma generateRaw_erased (llama : LlamaCpp Token) (tokens : List Token) (maxTokens : ℕ)
    (s : Session Token) :
    ∃ result st, generateRaw llama tokens maxTokens ⟨s, []⟩ = .ok (result, st) ∧
      Session.generateRaw llama tokens maxTokens s = (result, st.session) := by
  obtain ⟨result, st, heq, hprompted⟩ := prefill_returns llama tokens s
  rw [generateRaw, heq, Session.generateRaw, hprompted.erased]
  cases result with
  | error e => exact ⟨_, _, rfl, rfl⟩
  | ok n =>
    refine ⟨_, _, rfl, ?_⟩
    simp only [generateLoop_erased]

/-! ### What a prompt asks for -/

lemma map_token_oneShot (startPos : ℕ) : (oneShot tokens startPos).map Entry.token = tokens := by
  apply List.ext_getElem
  · simp [oneShot]
  · intro n h₁ h₂
    simp [oneShot]

lemma map_pos_oneShot {startPos : ℕ} (hfits : startPos + tokens.length ≤ 2 ^ 31) :
    (oneShot tokens startPos).map (fun e => e.pos.toInt) =
      (List.range tokens.length).map fun j : ℕ => (startPos : ℤ) + j := by
  apply List.ext_getElem
  · simp [oneShot]
  · intro j h₁ h₂
    have hj : j < tokens.length := by simpa using h₂
    have hint : (asI32 (startPos + j)).toInt = startPos + j :=
      Session.toInt_asI32 (show startPos + j < 2 ^ 31 by omega)
    simp [oneShot, hint]

lemma map_logits_oneShot (hne : tokens ≠ []) (startPos : ℕ) :
    (oneShot tokens startPos).map Entry.logits =
      List.replicate (tokens.length - 1) false ++ [true] := by
  have hpos : 0 < tokens.length := List.length_pos_of_ne_nil hne
  apply List.ext_getElem
  · simp only [oneShot, List.length_map, List.length_mapIdx, List.length_append,
      List.length_replicate, List.length_singleton]
    omega
  · intro j h₁ h₂
    have hj : j < tokens.length := by simpa [oneShot] using h₁
    rw [List.getElem_append]
    by_cases hlast : j = tokens.length - 1
    · simp [oneShot, hlast]
    · have hlt : j < tokens.length - 1 := by omega
      simp [oneShot, hlast, hlt]

/-- The last token of the last batch has its logits requested. -/
lemma Batches.sampled {startPos capacity : ℕ} {batch : List (Entry Token)}
    {batches : List (List (Entry Token))} (hne : tokens ≠ []) (hlen : tokens.length < 2 ^ 31)
    (h : Batches tokens startPos capacity tokens.length batch batches) :
    Sampled batch (asI32 batch.length - 1) := by
  have hpos : 0 < tokens.length := List.length_pos_of_ne_nil hne
  obtain ⟨earlier, rfl⟩ := List.getLast?_eq_some_iff.mp (h.last hpos)
  have hbatch : batch ≠ [] := h.ne_nil batch (List.mem_append_right _ List.mem_cons_self)
  have hflatten : earlier.flatten ++ batch = oneShot tokens startPos := by
    have hall := h.flatten
    rwa [List.flatten_append, List.flatten_singleton, ← length_oneShot startPos,
      List.take_length] at hall
  obtain ⟨init, e, rfl⟩ := (List.eq_nil_or_concat' batch).resolve_left hbatch
  have hlogits := map_logits_oneShot hne startPos
  rw [← hflatten, ← List.append_assoc, List.map_append] at hlogits
  have hlast := (List.append_inj' hlogits rfl).2
  have hcount := congrArg List.length hflatten
  rw [length_oneShot, List.length_append] at hcount
  exact sampled_last List.getLast?_concat (List.head_eq_of_cons_eq hlast) (by omega)

/-- The last batch is the one the session has. -/
lemma Batches.exists_decoded {startPos capacity : ℕ} {batch : List (Entry Token)}
    {batches : List (List (Entry Token))} {log : List (LlamaCall Token)} (hne : tokens ≠ [])
    (h : Batches tokens startPos capacity tokens.length batch batches)
    (hlog : log = acceptedLog batches) : ∃ earlier, log = earlier ++ [.decode batch true] := by
  obtain ⟨earlier, rfl⟩ := List.getLast?_eq_some_iff.mp (h.last (List.length_pos_of_ne_nil hne))
  exact ⟨acceptedLog earlier, by rw [hlog, acceptedLog, List.map_append]; rfl⟩

/-- For every prompt that fits into the context behind the position of the session. The prompt
loop ends, and if no decode fails its batches are the tokens in order at consecutive positions, none
of them empty or larger than a batch may be, with logits for the last token only. The generation
ends as well, and whatever happens in it, it samples at tokens of the batch just decoded whose
logits were requested. -/
theorem prefill_one_shot (llama : LlamaCpp Token) {s : Session Token} {tokens : List Token}
    (hne : tokens ≠ []) (hstart : 0 ≤ s.nCur.toInt) (hmax : s.maxSeqLen.toNat < 2 ^ 31)
    (hroom : s.nCur.toInt + tokens.length < s.maxSeqLen.toNat) :
    (∃ result st, prefill llama tokens ⟨s, []⟩ = .ok (result, st) ∧
      (NoFailure st.log →
        (decoded st.log).flatten.map Entry.token = tokens ∧
        (decoded st.log).flatten.map (fun e => e.pos.toInt) =
          (List.range tokens.length).map (fun j : ℕ => s.nCur.toInt + j) ∧
        (decoded st.log).flatten.map Entry.logits =
          List.replicate (tokens.length - 1) false ++ [true] ∧
        (∀ b ∈ decoded st.log, b ≠ [] ∧ b.length ≤ s.batchCapacity) ∧
        ∃ n, result = .ok n ∧ n.toInt = s.nCur.toInt + tokens.length)) ∧
    ∀ maxTokens, ∃ result st, generateRaw llama tokens maxTokens ⟨s, []⟩ = .ok (result, st) ∧
      Legal st.log := by
  obtain ⟨result, st, heq, hprompted⟩ := prefill_returns llama tokens s
  obtain ⟨startPos, hstartPos⟩ := Int.eq_ofNat_of_zero_le hstart
  have hasUsize : asUsize s.nCur = startPos := by
    rw [asUsize, hstartPos]
    omega
  have hend : (asUsize s.nCur + tokens.length) % 2 ^ 64 = startPos + tokens.length := by
    rw [hasUsize]
    omega
  constructor
  · refine ⟨result, st, heq, fun hno => ?_⟩
    obtain ⟨e, rfl, hfailed⟩ | ⟨-, rfl, batches, hlog, hbatches⟩ := hprompted.outcome
    · obtain ⟨b, hb⟩ := hfailed hne (by omega)
      exact absurd hb (hno b)
    · have hflatten : (decoded st.log).flatten = oneShot tokens startPos := by
        rw [hlog, decoded_acceptedLog, hbatches.flatten, hasUsize, ← length_oneShot startPos,
          List.take_length]
      rw [hflatten, hstartPos]
      refine ⟨map_token_oneShot startPos, map_pos_oneShot (by omega),
        map_logits_oneShot hne startPos, fun b hb => ?_, _, rfl, ?_⟩
      · rw [hlog, decoded_acceptedLog] at hb
        exact ⟨hbatches.ne_nil b hb, hbatches.length_le b hb⟩
      · rw [hend, Session.toInt_asI32 (show startPos + tokens.length < 2 ^ 31 by omega)]
        rfl
  · intro maxTokens
    rw [generateRaw, heq]
    obtain ⟨e, rfl, -⟩ | ⟨-, rfl, batches, hlog, hbatches⟩ := hprompted.outcome
    · exact ⟨_, st, rfl, legal_decodes hprompted.decodes⟩
    · refine ⟨_, _, rfl, Ready.generateLoop ⟨legal_decodes hprompted.decodes, ?_, ?_⟩ maxTokens []⟩
      · exact hbatches.exists_decoded hne hlog
      · exact hbatches.sampled hne (by omega)

/-- Three tokens in batches of two. -/
theorem prefill_one_shot_demo : ∃ st : Logged ℕ,
    prefill (Session.demoLlama 8) [7, 8, 9] ⟨Session.demoSession, []⟩ = .ok (.ok 3, st) ∧
    decoded st.log = [[⟨7, 0, false⟩, ⟨8, 1, false⟩], [⟨9, 2, true⟩]] ∧
    (decoded st.log).flatten.map Entry.token = [7, 8, 9] := by
  obtain ⟨⟨result, st, heq, hbatches⟩, -⟩ := prefill_one_shot (s := Session.demoSession)
    (Session.demoLlama 8) (List.cons_ne_nil 7 [8, 9]) (by decide) (by decide) (by decide)
  have hrun : ∃ st : Logged ℕ,
      prefill (Session.demoLlama 8) [7, 8, 9] ⟨Session.demoSession, []⟩ = .ok (.ok 3, st) ∧
      st.log = [.decode [⟨7, 0, false⟩, ⟨8, 1, false⟩] true, .decode [⟨9, 2, true⟩] true] :=
    ⟨_, rfl, rfl⟩
  obtain ⟨st', heq', hlog⟩ := hrun
  obtain ⟨rfl, rfl⟩ : result = .ok 3 ∧ st = st' := by
    rw [heq'] at heq
    cases heq
    exact ⟨rfl, rfl⟩
  refine ⟨st, heq, by rw [hlog]; rfl, (hbatches fun b hb => ?_).1⟩
  rw [hlog] at hb
  simp at hb

end Logged

end ModelApi.Llama
