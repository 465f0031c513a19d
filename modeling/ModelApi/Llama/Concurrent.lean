import ModelApi.Lib.Locked
import ModelApi.Llama.Isolation

/-!
# Requests at the same time

The connections of a server call one slot at the same time, and each call takes the session's mutex
for its prompt and its generation. Whatever the interleaving, every request is answered as if the
requests were made one after the other, in the order in which they give the mutex back.
-/

namespace ModelApi.Llama

open Lib Gemma Server

variable {Token N : Type}

/-! ### Under the mutex -/

/-- Where a request is in the closure that holds the mutex. -/
inductive Stage (Token : Type) where
  | tokenize (prompt : String) (maxTokens : ℕ)
  /-- the tokens of the prompt from `i` on are left -/
  | prefill (promptTokens : List Token) (startPos i maxTokens : ℕ)
  /-- at most `turns` tokens are left to produce -/
  | generate (turns : ℕ) (produced : List Token)

namespace LlamaSlot

/-- A request whose prompt is ready. -/
structure Job (slot : LlamaSlot Token N) where
  req : InferenceRequest
  sink : Bool
  prompt : String
  prompt_eq : slot.prompt req = .ok prompt

variable (slot : LlamaSlot Token N)

/-- One turn: the checks of the prompt, one chunk of it, or one token. -/
def turn : Stage Token → Session Token → (Stage Token ⊕ Except String String) × Session Token
  | .tokenize prompt maxTokens, s =>
    match slot.tokenize prompt true with
    | .error e         => (.inr (.error e), s)
    | .ok promptTokens =>
      if promptTokens = [] then (.inr (.error "empty prompt"), s)
      else
        let startPos := asUsize s.nCur
        if s.maxSeqLen.toNat ≤ (startPos + promptTokens.length) % 2 ^ 64 then
          (.inr (.error
            (s!"prompt {promptTokens.length} tokens at pos {startPos} exceeds context " ++
            s!"{s.maxSeqLen.toNat}")), s)
        else (.inl (.prefill promptTokens startPos 0 maxTokens), s)
  | .prefill promptTokens startPos i maxTokens, s =>
    if i < promptTokens.length then
      let stop := min (i + s.batchCapacity) promptTokens.length
      match Session.add slot.llama (Session.chunkEntries promptTokens startPos i stop)
        { s with batch := [] } with
      | (.error e, s) => (.inr (.error s!"batch add prefill: {e}"), s)
      | (.ok (), s)   =>
        match Session.decode slot.llama s with
        | (.error e, s) => (.inr (.error s!"decode prefill: {e}"), s)
        | (.ok (), s)   => (.inl (.prefill promptTokens startPos stop maxTokens), s)
    else
      (.inl (.generate maxTokens []),
        { s with nCur := asI32 ((startPos + promptTokens.length) % 2 ^ 64) })
  | .generate 0 produced, s => (.inr (.ok (slot.detokenize produced)), s)
  | .generate (turns + 1) produced, s =>
    match Session.step slot.llama s with
    | none       => (.inr (.ok (slot.detokenize produced)), s)
    | some token =>
      match Session.pushToken slot.llama token s with
      | (.error _, s) => (.inr (.ok (slot.detokenize (produced ++ [token]))), s)
      | (.ok (), s)   => (.inl (.generate turns (produced ++ [token])), s)

/-- The closure that `run_inner` gives to a thread of its own. -/
def locked : Section (Session Token) slot.Job (Stage Token) (Except String String) where
  start job := .tokenize job.prompt job.req.maxTokens.toNat
  turn := slot.turn

variable {slot} {s t : Session Token} {tokens : List Token} {startPos maxTokens : ℕ}

/-- One chunk of the prompt. -/
lemma turn_prefill {i : ℕ} (hi : i < tokens.length) :
    slot.turn (.prefill tokens startPos i maxTokens) s =
      match slot.llama.refuses s.kv (Session.chunkAt s tokens startPos i) with
      | some e => (.inr (.error s!"decode prefill: {e}"),
          { s with batch := Session.chunkAt s tokens startPos i })
      | none   => (.inl (.prefill tokens startPos
          (min (i + s.batchCapacity) tokens.length) maxTokens),
          { s with
            kv := s.kv ++ (tokens.take (min (i + s.batchCapacity) tokens.length)).drop i
            batch := Session.chunkAt s tokens startPos i }) := by
  have hadd : Session.add slot.llama (Session.chunkAt s tokens startPos i) { s with batch := [] } =
      (.ok (), { s with batch := Session.chunkAt s tokens startPos i }) :=
    Session.add_eq (by simpa using Session.length_chunkAt_le startPos i)
  simp only [turn, if_pos hi]
  simp only [Session.chunkAt] at hadd ⊢
  rw [hadd]
  simp only [Session.decode]
  cases slot.llama.refuses s.kv (Session.chunkEntries tokens startPos i _) with
  | some e => rfl
  | none => simp only [Session.map_token_chunkEntries]

lemma runs_prefill_error {e : String} {fuel i : ℕ}
    (h : Session.prefillLoop slot.llama tokens startPos fuel i s = (.error e, t)) :
    slot.locked.Runs (.prefill tokens startPos i maxTokens) s (.error e) t := by
  induction fuel generalizing i s with
  | zero => cases h
  | succ fuel ih =>
    by_cases hi : i < tokens.length
    · rw [Session.prefillLoop_succ hi] at h
      have hturn : slot.locked.turn (.prefill tokens startPos i maxTokens) s = _ := turn_prefill hi
      cases hrefuses : slot.llama.refuses s.kv (Session.chunkAt s tokens startPos i) with
      | some e' =>
        rw [hrefuses] at h hturn
        cases h
        exact .last hturn
      | none =>
        rw [hrefuses] at h hturn
        exact .next hturn (ih h)
    · rw [Session.prefillLoop, if_neg hi] at h
      cases h

lemma runs_prefill_ok {fuel i : ℕ} (hfuel : tokens.length ≤ fuel + i)
    (h : Session.prefillLoop slot.llama tokens startPos fuel i s = (.ok (), t))
    {b : Except String String} {u : Session Token}
    (hrest : slot.locked.Runs (.generate maxTokens [])
      { t with nCur := asI32 ((startPos + tokens.length) % 2 ^ 64) } b u) :
    slot.locked.Runs (.prefill tokens startPos i maxTokens) s b u := by
  have hlast : ∀ {i : ℕ}, ¬ i < tokens.length →
      slot.locked.Runs (.prefill tokens startPos i maxTokens) t b u := by
    intro i hi
    refine .next ?_ hrest
    simp only [locked, turn, if_neg hi]
  induction fuel generalizing i s with
  | zero =>
    cases h
    exact hlast (by omega)
  | succ fuel ih =>
    by_cases hi : i < tokens.length
    · rw [Session.prefillLoop_succ hi] at h
      have hturn : slot.locked.turn (.prefill tokens startPos i maxTokens) s = _ := turn_prefill hi
      cases hrefuses : slot.llama.refuses s.kv (Session.chunkAt s tokens startPos i) with
      | some e =>
        rw [hrefuses] at h
        cases h
      | none =>
        rw [hrefuses] at h hturn
        have hpos := s.capacity_pos
        exact .next hturn (ih (by omega) h)
    · rw [Session.prefillLoop, if_neg hi] at h
      cases h
      exact hlast hi

lemma runs_generateLoop (turns : ℕ) (produced : List Token) (s : Session Token) :
    slot.locked.Runs (.generate turns produced) s
      (.ok (slot.detokenize (Session.generateLoop slot.llama turns produced s).1))
      (Session.generateLoop slot.llama turns produced s).2 := by
  induction turns generalizing produced s with
  | zero => exact .last rfl
  | succ turns ih =>
    rw [Session.generateLoop]
    cases hstep : Session.step slot.llama s with
    | none => exact .last (by simp only [locked, turn, hstep])
    | some token =>
      simp only
      cases hpush : Session.pushToken slot.llama token s with
      | mk result t =>
        cases result with
        | error e => exact .last (by simp only [locked, turn, hstep, hpush])
        | ok _ => exact .next (by simp only [locked, turn, hstep, hpush]) (ih _ t)

/-- Turn by turn, the closure computes what it computes at once. -/
theorem runs_generate (prompt : String) (maxTokens : ℕ) (s : Session Token) :
    slot.locked.Runs (.tokenize prompt maxTokens) s (slot.generate prompt maxTokens s).1
      (slot.generate prompt maxTokens s).2 := by
  rw [generate]
  cases htokens : slot.tokenize prompt true with
  | error e => exact .last (by simp only [locked, turn, htokens])
  | ok tokens =>
    simp only [Session.generateRaw, Session.prefill]
    by_cases hnil : tokens = []
    · rw [if_pos hnil]
      exact .last (by simp only [locked, turn, htokens, if_pos hnil])
    · rw [if_neg hnil]
      by_cases hroom : s.maxSeqLen.toNat ≤ (asUsize s.nCur + tokens.length) % 2 ^ 64
      · rw [if_pos hroom]
        exact .last (by simp only [locked, turn, htokens, if_neg hnil, if_pos hroom])
      · rw [if_neg hroom]
        have hturn : slot.locked.turn (.tokenize prompt maxTokens) s =
            (.inl (.prefill tokens (asUsize s.nCur) 0 maxTokens), s) := by
          simp only [locked, turn, htokens, if_neg hnil, if_neg hroom]
        refine .next hturn ?_
        cases hloop : Session.prefillLoop slot.llama tokens (asUsize s.nCur) tokens.length 0 s with
        | mk result t =>
          cases result with
          | error e => exact runs_prefill_error hloop
          | ok _ => exact runs_prefill_ok (Nat.le_add_right ..) hloop (runs_generateLoop ..)

/-- The closure comes to its end, wherever it is. -/
lemma locked_ends (k : Stage Token) (s : Session Token) : ∃ b t, slot.locked.Runs k s b t := by
  cases k with
  | tokenize prompt maxTokens => exact ⟨_, _, runs_generate prompt maxTokens s⟩
  | generate turns produced => exact ⟨_, _, runs_generateLoop turns produced s⟩
  | prefill tokens startPos i maxTokens =>
    cases hloop : Session.prefillLoop slot.llama tokens startPos tokens.length i s with
    | mk result t =>
      cases result with
      | error e => exact ⟨_, _, runs_prefill_error hloop⟩
      | ok _ => exact ⟨_, _, runs_prefill_ok (Nat.le_add_right ..) hloop (runs_generateLoop ..)⟩

/-! ### Calls of the slot -/

/-- The events before the closure. -/
def started (sink : Bool) : List SlotEvent :=
  if sink then [progress "queued", progress "gen_start"] else []

/-- The events behind the closure. -/
def finished (sink : Bool) (text : String) : List SlotEvent :=
  if sink then [.chunk ⟨text, none, none⟩, progress "gen_done"] else []

/-- Where a call of `run_inner` is. -/
inductive Pc where
  | entered
  /-- the closure waits for the mutex, or holds it, or has returned -/
  | unblock
  | returned (result : Except Fault (Except String InferenceResponse))

/-- A call of `run_inner`, with what has reached its sink. -/
structure Running where
  req : InferenceRequest
  sink : Bool
  events : List SlotEvent
  pc : Pc

/-- A slot and the calls of it. -/
structure State (slot : LlamaSlot Token N) where
  closures : Section.State (Session Token) slot.Job (Stage Token) (Except String String)
  runs : ℕ → Option Running

/-- The run of call `i` is now `c`. -/
def State.set (s : slot.State) (i : ℕ) (c : Running) : slot.State :=
  { s with runs := Function.update s.runs i (some c) }

variable (slot) in
inductive Step : slot.State → slot.State → Prop where
  | enter {s : slot.State} (i : ℕ) (req : InferenceRequest) (sink : Bool) (hi : s.runs i = none) :
      Step s (s.set i ⟨req, sink, [], .entered⟩)
  | refuse {s : slot.State} {i : ℕ} {c : Running} {e : String} (hi : s.runs i = some c)
      (hpc : c.pc = .entered) (hprompt : slot.prompt c.req = .error e) :
      Step s (s.set i { c with pc := .returned (.ok (.error e)) })
  | start {s : slot.State} {i : ℕ} {c : Running} {prompt : String} (hi : s.runs i = some c)
      (hpc : c.pc = .entered) (hprompt : slot.prompt c.req = .ok prompt) :
      Step s { s.set i { c with events := c.events ++ started c.sink, pc := .unblock } with
        closures := s.closures.call i ⟨c.req, c.sink, prompt, hprompt⟩ }
  /-- one step of the closures -/
  | work {s : slot.State} {closures : Section.State _ slot.Job (Stage Token) (Except String String)}
      (h : slot.locked.Work s.closures closures) : Step s { s with closures := closures }
  | fail {s : slot.State} {i : ℕ} {c : Running} {job : slot.Job} {e : String}
      (hi : s.runs i = some c) (hpc : c.pc = .unblock)
      (hreturned : s.closures.calls i = some (.returned job (.error e))) :
      Step s (s.set i { c with pc := .returned (.ok (.error e)) })
  | finish {s : slot.State} {i : ℕ} {c : Running} {job : slot.Job} {text : String}
      (hi : s.runs i = some c) (hpc : c.pc = .unblock)
      (hreturned : s.closures.calls i = some (.returned job (.ok text))) :
      Step s (s.set i { c with
        events := c.events ++ finished c.sink text, pc := .returned (slot.respond c.req text) })

/-- A slot that is called by any number of connections, with the session `s₀` at first. -/
def machine (slot : LlamaSlot Token N) (s₀ : Session Token) : Machine slot.State where
  init s := s = ⟨.start s₀, fun _ => none⟩
  step := slot.Step

/-- A call whose closure has returned, and its request. -/
def entry (e : ℕ × slot.Job × Except String String) : ℕ × InferenceRequest × Bool :=
  (e.1, e.2.1.req, e.2.1.sink)

/-- The calls whose closures have returned, in this order. -/
def State.history (s : slot.State) : List (ℕ × InferenceRequest × Bool) :=
  s.closures.served.map entry

/-! ### One call after the other -/

/-- What `run_inner` makes of what the closure returns. -/
def answer (slot : LlamaSlot Token N) (req : InferenceRequest) (sink : Bool) :
    Except String String → Outcome
  | .error e => ⟨started sink, .ok (.error e)⟩
  | .ok text => ⟨started sink ++ finished sink text, slot.respond req text⟩

lemma runInner_of_prompt {req : InferenceRequest} {prompt : String}
    (h : slot.prompt req = .ok prompt) (sink : Bool) (s : Session Token) :
    slot.runInner req sink s =
      (slot.answer req sink (slot.generate prompt req.maxTokens.toNat s).1,
        (slot.generate prompt req.maxTokens.toNat s).2) := by
  rw [runInner, h]
  simp only
  cases slot.generate prompt req.maxTokens.toNat s with
  | mk result t => cases result <;> rfl

lemma serve_append (before : List (InferenceRequest × Bool)) (r : InferenceRequest × Bool)
    (s : Session Token) :
    slot.serve (before ++ [r]) s = (slot.runInner r.1 r.2 (slot.serve before s)).2 := by
  simp [serve]

/-- The requests of jobs. -/
def requests (jobs : List (slot.Job × Except String String)) : List (InferenceRequest × Bool) :=
  jobs.map fun e => (e.1.req, e.1.sink)

/-- Closures that are run one after the other leave the session that their requests leave. -/
lemma serve_of_serial {jobs : List (slot.Job × Except String String)} {s t : Session Token}
    (h : slot.locked.Serial jobs s t) : slot.serve (requests jobs) s = t := by
  induction h with
  | nil s => rfl
  | @append jobs s t u job b h hrun ih =>
    obtain ⟨-, ht⟩ := hrun.unique (runs_generate job.prompt job.req.maxTokens.toNat t)
    rw [requests, List.map_append, List.map_singleton, serve_append]
    rw [requests] at ih
    rw [ih, runInner_of_prompt job.prompt_eq, ht]

/-- Each of them returns what its request is answered with. -/
lemma answer_of_serial {jobs : List (slot.Job × Except String String)} {s t : Session Token}
    (h : slot.locked.Serial jobs s t) {before after : List (slot.Job × Except String String)}
    {job : slot.Job} {b : Except String String} (hjobs : jobs = before ++ (job, b) :: after) :
    slot.answer job.req job.sink b =
      (slot.runInner job.req job.sink (slot.serve (requests before) s)).1 := by
  induction h generalizing after with
  | nil s => simp at hjobs
  | @append jobs s t u job' b' h hrun ih =>
    rcases List.eq_nil_or_concat after with rfl | ⟨after, last, rfl⟩
    · obtain ⟨rfl, hlast⟩ := List.append_inj' hjobs rfl
      cases hlast
      obtain ⟨hb, -⟩ := hrun.unique (runs_generate job.prompt job.req.maxTokens.toNat t)
      rw [serve_of_serial h, runInner_of_prompt job.prompt_eq, hb]
    · rw [List.concat_eq_append, ← List.cons_append, ← List.append_assoc] at hjobs
      exact ih (List.append_inj' hjobs rfl).1

/-! ### The invariant -/

/-- Where the closure of a call is, for each place where the call can be. -/
inductive Linked (slot : LlamaSlot Token N) :
    Option Running → Option (Section.Call slot.Job (Except String String)) → Prop where
  | absent : Linked slot none none
  | entered (req : InferenceRequest) (sink : Bool) :
      Linked slot (some ⟨req, sink, [], .entered⟩) none
  | refused {req : InferenceRequest} (sink : Bool) {e : String} (h : slot.prompt req = .error e) :
      Linked slot (some ⟨req, sink, [], .returned (.ok (.error e))⟩) none
  | unblock (call : Section.Call slot.Job (Except String String)) :
      Linked slot (some ⟨call.arg.req, call.arg.sink, started call.arg.sink, .unblock⟩) (some call)
  | answered (job : slot.Job) (b : Except String String) :
      Linked slot (some ⟨job.req, job.sink, (slot.answer job.req job.sink b).events,
        .returned (slot.answer job.req job.sink b).result⟩) (some (.returned job b))

/-- The closures run as they would without the calls around them, each within its call. -/
structure Inv (slot : LlamaSlot Token N) (s₀ : Session Token) (s : slot.State) : Prop where
  closures : (slot.locked.machine s₀).Reachable s.closures
  linked : ∀ i, slot.Linked (s.runs i) (s.closures.calls i)

variable {s₀ : Session Token} {s t : slot.State}

lemma Linked.set (h : ∀ i, slot.Linked (s.runs i) (s.closures.calls i)) {i : ℕ} {c : Running}
    (hc : slot.Linked (some c) (s.closures.calls i)) (j : ℕ) :
    slot.Linked ((s.set i c).runs j) ((s.set i c).closures.calls j) := by
  by_cases hj : j = i
  · subst hj
    simpa only [State.set, Function.update_self] using hc
  · simpa only [State.set, Function.update_of_ne hj] using h j

section Linked

variable {c : Running} {call : Option (Section.Call slot.Job (Except String String))}

lemma Linked.of_absent (h : slot.Linked none call) : call = none := by
  cases h
  rfl

lemma Linked.of_entered (h : slot.Linked (some c) call) (hpc : c.pc = .entered) :
    call = none ∧ c.events = [] := by
  cases h with
  | entered => exact ⟨rfl, rfl⟩
  | refused | unblock | answered => cases hpc

lemma Linked.of_unblock (h : slot.Linked (some c) call) (hpc : c.pc = .unblock) :
    ∃ call', call = some call' ∧ c.req = call'.arg.req ∧ c.sink = call'.arg.sink ∧
      c.events = started call'.arg.sink := by
  cases h with
  | unblock call' => exact ⟨call', rfl, rfl, rfl, rfl⟩
  | entered | refused | answered => cases hpc

end Linked

lemma Inv.step (h : slot.Inv s₀ s) (hst : slot.Step s t) : slot.Inv s₀ t := by
  cases hst with
  | enter i req sink hi =>
    refine ⟨h.closures, Linked.set h.linked ?_⟩
    have hl := h.linked i
    rw [hi] at hl
    rw [hl.of_absent]
    exact .entered req sink
  | @refuse i c e hi hpc hprompt =>
    refine ⟨h.closures, Linked.set h.linked ?_⟩
    have hl := h.linked i
    rw [hi] at hl
    obtain ⟨hnone, hevents⟩ := hl.of_entered hpc
    rw [hnone, hevents]
    exact .refused c.sink hprompt
  | @start i c prompt hi hpc hprompt =>
    have hl := h.linked i
    rw [hi] at hl
    obtain ⟨hnone, hevents⟩ := hl.of_entered hpc
    refine ⟨h.closures.step (.call i _ hnone), fun j => ?_⟩
    by_cases hj : j = i
    · subst hj
      simp only [State.set, Section.State.call, Function.update_self, hevents, List.nil_append]
      exact .unblock (.waiting ⟨c.req, c.sink, prompt, hprompt⟩)
    · simpa only [State.set, Section.State.call, Function.update_of_ne hj] using h.linked j
  | @work closures hwork =>
    refine ⟨h.closures.step (.work hwork), fun j => ?_⟩
    have hl := h.linked j
    rcases Section.calls_of_work hwork j with heq | ⟨call, call', hcall, hcall', harg, hne⟩
    · simpa only [heq] using hl
    · simp only [hcall']
      rw [hcall] at hl
      generalize s.runs j = c at hl
      cases hl with
      | unblock =>
        rw [← harg]
        exact .unblock call'
      | answered job b => exact absurd rfl (hne job b)
  | @fail i c job e hi hpc hreturned =>
    refine ⟨h.closures, Linked.set h.linked ?_⟩
    have hl := h.linked i
    rw [hi, hreturned] at hl
    obtain ⟨call, hcall, hreq, hsink, hevents⟩ := hl.of_unblock hpc
    cases hcall
    rw [hreturned, hreq, hsink, hevents]
    exact .answered job (.error e)
  | @finish i c job text hi hpc hreturned =>
    refine ⟨h.closures, Linked.set h.linked ?_⟩
    have hl := h.linked i
    rw [hi, hreturned] at hl
    obtain ⟨call, hcall, hreq, hsink, hevents⟩ := hl.of_unblock hpc
    cases hcall
    rw [hreturned, hreq, hsink, hevents]
    exact .answered job (.ok text)

lemma inv_of_reachable (h : (slot.machine s₀).Reachable s) : slot.Inv s₀ s := by
  refine h.invariant ?_ fun _ _ hst hs => hs.step hst
  rintro _ rfl
  exact ⟨.of_init rfl, fun _ => .absent⟩

/-! ### Every call can return -/

lemma steps_work
    {closures : Section.State (Session Token) slot.Job (Stage Token) (Except String String)}
    (h : Relation.ReflTransGen slot.locked.Work s.closures closures) :
    (slot.machine s₀).Steps s { s with closures := closures } := by
  induction h with
  | refl => exact .refl
  | tail _ hwork ih => exact ih.tail (.work hwork)

lemma runs_set (s : slot.State) (i : ℕ) (c : Running) : (s.set i c).runs i = some c :=
  Function.update_self ..

/-- The slot behind a call that was made alone. -/
def State.called (s : slot.State) (i : ℕ) (job : slot.Job) : slot.State where
  closures :=
    let generated := slot.generate job.prompt job.req.maxTokens.toNat s.closures.shared
    ⟨generated.2, none, Function.update s.closures.calls i (some (.returned job generated.1)),
      s.closures.served ++ [(i, job, generated.1)]⟩
  runs :=
    let outcome := (slot.runInner job.req job.sink s.closures.shared).1
    Function.update s.runs i (some ⟨job.req, job.sink, outcome.events, .returned outcome.result⟩)

/-- A call can be made alone. -/
lemma steps_called (hfree : s.closures.holder = none) {i : ℕ} (hi : s.runs i = none)
    (job : slot.Job) : (slot.machine s₀).Steps s (s.called i job) := by
  have henter : slot.Step s (s.set i ⟨job.req, job.sink, [], .entered⟩) :=
    .enter i job.req job.sink hi
  have hstart := Step.start (runs_set s i ⟨job.req, job.sink, [], .entered⟩) rfl job.prompt_eq
  have hworks := Section.works_of_waiting (S := slot.locked) (s := s.closures.call i job)
    (Function.update_self ..) hfree (runs_generate job.prompt job.req.maxTokens.toNat _)
  have hwaits : (slot.machine s₀).Steps s _ := (Relation.ReflTransGen.single henter).tail hstart
  have hblocked := hwaits.trans (steps_work hworks)
  have hrun := runInner_of_prompt job.prompt_eq job.sink s.closures.shared
  cases hresult : (slot.generate job.prompt job.req.maxTokens.toNat s.closures.shared).1 with
  | error e =>
    have hreturned := congrArg (fun b => some (Section.Call.returned job b)) hresult
    have hlast := hblocked.tail
      (.fail (runs_set ..) rfl ((Function.update_self ..).trans hreturned))
    rw [State.called]
    simp only [hrun, hresult, answer]
    simpa [State.set, Section.State.call, Function.update_idem, hresult] using hlast
  | ok text =>
    have hreturned := congrArg (fun b => some (Section.Call.returned job b)) hresult
    have hlast := hblocked.tail
      (.finish (runs_set ..) rfl ((Function.update_self ..).trans hreturned))
    rw [State.called]
    simp only [hrun, hresult, answer]
    simpa [State.set, Section.State.call, Function.update_idem, hresult] using hlast

/-- A call whose closure has returned returns next. -/
lemma Inv.exists_returned_of_unblock (h : slot.Inv s₀ s) {i : ℕ} {c : Running}
    (hi : s.runs i = some c) (hpc : c.pc = .unblock) :
    ∃ t c' result, (slot.machine s₀).Steps s t ∧ t.runs i = some c' ∧ c'.pc = .returned result := by
  have hl := h.linked i
  rw [hi] at hl
  obtain ⟨call, hcall, -⟩ := hl.of_unblock hpc
  have hinv := Section.inv_of_reachable h.closures
  obtain ⟨closures, job, b, hsteps, hreturned⟩ :=
    hinv.exists_returned locked_ends (i := i) (by simp [hcall])
  have hworks : (slot.machine s₀).Steps s { s with closures := closures } := steps_work hsteps
  cases b with
  | error e => exact ⟨_, _, _, hworks.tail (.fail hi hpc hreturned), runs_set .., rfl⟩
  | ok text => exact ⟨_, _, _, hworks.tail (.finish hi hpc hreturned), runs_set .., rfl⟩

lemma Inv.exists_returned (h : slot.Inv s₀ s) {i : ℕ} (hi : s.runs i ≠ none) :
    ∃ t c result, (slot.machine s₀).Steps s t ∧ t.runs i = some c ∧ c.pc = .returned result := by
  obtain ⟨c, hc⟩ := Option.ne_none_iff_exists'.mp hi
  cases hpc : c.pc with
  | returned result => exact ⟨s, c, result, .refl, hc, hpc⟩
  | unblock => exact h.exists_returned_of_unblock hc hpc
  | entered =>
    cases hprompt : slot.prompt c.req with
    | error e => exact ⟨_, _, _, .single (.refuse hc hpc hprompt), runs_set .., rfl⟩
    | ok prompt =>
      have hst : slot.Step s _ := .start hc hpc hprompt
      obtain ⟨t, c', result, hsteps, hreturned⟩ :=
        (h.step hst).exists_returned_of_unblock (runs_set ..) rfl
      exact ⟨t, c', result, .head hst hsteps, hreturned⟩

/-! ### What the calls return -/

lemma requests_entry (served : List (ℕ × slot.Job × Except String String)) :
    requests (served.map Prod.snd) = (served.map entry).map Prod.snd := by
  simp [requests, entry, Function.comp_def]

lemma history_of_step (hst : slot.Step s t) : s.history <+: t.history := by
  cases hst with
  | work hwork => exact (Section.served_of_work hwork).map _
  | enter | refuse | start | fail | finish => exact List.prefix_rfl

/-- A call whose closure has returned `b` is answered as if it had come behind the calls before
it. -/
lemma Inv.answer_eq (h : slot.Inv s₀ s) {i : ℕ} {job : slot.Job} {b : Except String String}
    (hi : s.closures.calls i = some (.returned job b)) :
    ∃ before after, s.history = before ++ (i, job.req, job.sink) :: after ∧
      slot.answer job.req job.sink b =
        (slot.runInner job.req job.sink (slot.serve (before.map Prod.snd) s₀)).1 := by
  have hinv := Section.inv_of_reachable h.closures
  obtain ⟨before, after, hserved⟩ := List.append_of_mem ((hinv.returned i job b).mp hi)
  obtain ⟨u, hserial, -⟩ := hinv.serial
  refine ⟨before.map entry, after.map entry, ?_, ?_⟩
  · rw [State.history, hserved, List.map_append, List.map_cons, entry]
  · rw [hserved, List.map_append, List.map_cons] at hserial
    rw [← requests_entry]
    exact answer_of_serial hserial rfl

/-- Whatever the interleaving, each call of the slot returns, and shows its sink, what it would if
the calls were made one after the other in the order of `history`: each call is in it at most once,
it only grows, and a free session is what it leaves. No call is stuck behind the others. -/
theorem linearized_of_reachable (slot : LlamaSlot Token N) (s₀ : Session Token) {s : slot.State}
    (h : (slot.machine s₀).Reachable s) :
    (s.history.map Prod.fst).Nodup ∧
    (∀ i req sink, (i, req, sink) ∈ s.history →
      ∃ c, s.runs i = some c ∧ c.req = req ∧ c.sink = sink) ∧
    (∀ i c result, s.runs i = some c → c.pc = .returned result →
      (∃ e, slot.prompt c.req = .error e ∧ c.events = [] ∧ result = .ok (.error e)) ∨
      ∃ before after, s.history = before ++ (i, c.req, c.sink) :: after ∧
        ⟨c.events, result⟩ =
          (slot.runInner c.req c.sink (slot.serve (before.map Prod.snd) s₀)).1) ∧
    (s.closures.holder = none →
      s.closures.shared = slot.serve (s.history.map Prod.snd) s₀) ∧
    (∀ t, (slot.machine s₀).Steps s t → s.history <+: t.history) ∧
    ∀ i, s.runs i ≠ none →
      ∃ t c result, (slot.machine s₀).Steps s t ∧ t.runs i = some c ∧ c.pc = .returned result := by
  have hinv := inv_of_reachable h
  have hclosures := Section.inv_of_reachable hinv.closures
  refine ⟨?_, fun i req sink hmem => ?_, fun i c result hi hpc => ?_, fun hfree => ?_,
    fun t hsteps => ?_, fun i hi => hinv.exists_returned hi⟩
  · have hids : s.history.map Prod.fst = s.closures.served.map Prod.fst := by
      simp [State.history, entry]
    rw [hids]
    exact hclosures.nodup
  · obtain ⟨⟨j, job, b⟩, hserved, heq⟩ := List.mem_map.mp hmem
    cases heq
    have hl := hinv.linked j
    rw [(hclosures.returned j job b).mpr hserved] at hl
    generalize s.runs j = c at hl
    cases hl with
    | unblock | answered => exact ⟨_, rfl, rfl, rfl⟩
  · have hl := hinv.linked i
    rw [hi] at hl
    generalize hcall : s.closures.calls i = call at hl
    cases hl with
    | entered | unblock => cases hpc
    | refused sink hprompt =>
      cases hpc
      exact .inl ⟨_, hprompt, rfl, rfl⟩
    | answered job b =>
      cases hpc
      obtain ⟨before, after, hhistory, hanswer⟩ := hinv.answer_eq hcall
      exact .inr ⟨before, after, hhistory, by rw [← hanswer]⟩
  · obtain ⟨u, hserial, hu, -⟩ := hclosures.serial
    rw [hu hfree, State.history, ← requests_entry, serve_of_serial hserial]
  · induction hsteps with
    | refl => exact List.prefix_rfl
    | tail _ hst ih => exact ih.trans (history_of_step hst)

/-! ### Two calls -/

/-- A call that is refused under the mutex, while a call that came first waits for it. -/
lemma exists_demo : ∃ s : demoSlot.State, (demoSlot.machine Session.demoSession).Reachable s ∧
    s.history = [(1, demoText "", true)] ∧ s.runs 0 = some
      ⟨demoText "a", true, [progress "queued", progress "gen_start"], .unblock⟩ ∧
    s.runs 1 = some ⟨demoText "", true, [progress "queued", progress "gen_start"],
      .returned (.ok (.error "empty prompt"))⟩ := by
  have h₀ : (demoSlot.machine Session.demoSession).Reachable _ := .of_init rfl
  have h₁ := h₀.step (.enter 0 (demoText "a") true rfl)
  have h₂ := h₁.step (.enter 1 (demoText "") true rfl)
  have h₃ := h₂.step (.start (i := 0) rfl rfl (by rfl))
  have h₄ := h₃.step (.start (i := 1) rfl rfl (by rfl))
  have h₅ := h₄.step (.work (.lock (i := 1) rfl rfl))
  have h₆ := h₅.step (.work (.unlock (i := 1) rfl rfl rfl))
  exact ⟨_, h₆.step (.fail (i := 1) rfl rfl rfl), rfl, rfl, rfl⟩

/-- The call that is refused found the session of no call before it, and the one that waits can
return. -/
theorem linearized_of_reachable_demo :
    ∃ s : demoSlot.State, s.runs 0 ≠ none ∧
      Outcome.mk [progress "queued", progress "gen_start"] (.ok (.error "empty prompt")) =
        (demoSlot.runInner (demoText "") true Session.demoSession).1 ∧
      ∃ t c result, (demoSlot.machine Session.demoSession).Steps s t ∧ t.runs 0 = some c ∧
        c.pc = .returned result := by
  obtain ⟨s, hs, hhistory, hwaits, hrefused⟩ := exists_demo
  obtain ⟨-, -, hreturned, -, -, hlive⟩ := linearized_of_reachable demoSlot Session.demoSession hs
  have hne : s.runs 0 ≠ none := by simp [hwaits]
  refine ⟨s, hne, ?_, hlive 0 hne⟩
  rcases hreturned 1 _ _ hrefused rfl with ⟨e, he, -⟩ | ⟨before, after, hbefore, heq⟩
  · cases he
  · rw [hhistory] at hbefore
    have hlength := congrArg List.length hbefore
    simp only [List.length_append, List.length_cons, List.length_nil] at hlength
    obtain rfl : before = [] := List.eq_nil_of_length_eq_zero (by omega)
    exact heq

end LlamaSlot
end ModelApi.Llama
