import ModelApi.Client.Exclusion

/-!
# Replies are matched to requests

On a connection whose reads and writes do not fail, every call that returns a reply returns the
reply to its own request. One read that gives up leaves the reply in the stream, where the next
call finds it.
-/

namespace ModelApi.Client

open Lib

/-! ### The mutex and the server's record -/

/-- At most one call is past the mutex, and none once the mutex is poisoned. -/
structure Locking (s : State) : Prop where
  torn : s.torn = false
  holder : ∀ i c, s.calls i = some c → c.pc = .holding ∨ c.pc = .reading → s.lock = some i
  poisoned : s.poisoned = true → s.lock = none

lemma Locking.exclusive {s : State} (h : Locking s) : Exclusive s := ⟨h.holder, h.poisoned⟩

/-- The request of call `i` has not been written. -/
def State.Unwritten (s : State) (i : ℕ) : Prop :=
  ∀ c, s.calls i = some c → c.pc = .entered ∨ c.pc = .holding

lemma State.unwritten_of_none {s : State} {i : ℕ} (h : s.calls i = none) : s.Unwritten i := by
  intro c hc
  rw [h] at hc
  cases hc

lemma State.unwritten_of_some {s : State} {i : ℕ} {c : Call} (h : s.calls i = some c)
    (hpc : c.pc = .entered ∨ c.pc = .holding) : s.Unwritten i := by
  intro c' hc'
  obtain rfl := Option.some.inj (h.symm.trans hc')
  exact hpc

/-- The server has sent nothing for a request that was not written, and owes at most one reply. -/
structure Ledger (s : State) : Prop where
  fresh : ∀ i, s.Unwritten i → s.answers i = none ∧ s.events i = []
  owed : s.closed = true ∨ s.unanswered = [] ∨
    ∃ i, s.unanswered = [i] ∧ s.answers i = none ∧ ¬ s.Unwritten i

lemma Ledger.answers_eq_none {s : State} (h : Ledger s) (hopen : s.closed = false) {i : ℕ}
    (hhead : s.unanswered.head? = some i) : s.answers i = none := by
  rcases h.owed with hclosed | hnil | ⟨j, hj, hanswer, -⟩
  · rw [hopen] at hclosed
    cases hclosed
  · rw [hnil] at hhead
    cases hhead
  · rw [hj] at hhead
    cases hhead
    exact hanswer

/-- A request that was written stays written. -/
lemma State.Unwritten.of_setCall {s : State} {i j : ℕ} {c : Call}
    (h : (s.setCall i c).Unwritten j) (hi : c.pc = .entered ∨ c.pc = .holding → s.Unwritten i) :
    s.Unwritten j := by
  by_cases hji : j = i
  · subst hji
    exact hi (h c (Function.update_self ..))
  · exact fun d hd => h d ((Function.update_of_ne hji ..).trans hd)

/-- A step that neither writes a request nor sends anything. -/
lemma Ledger.congr {s t : State} (h : Ledger s) (hunwritten : ∀ j, t.Unwritten j → s.Unwritten j)
    (hclosed : t.closed = s.closed) (hunanswered : t.unanswered = s.unanswered)
    (hevents : t.events = s.events) (hanswers : t.answers = s.answers) : Ledger t := by
  constructor
  · intro i hi
    rw [hanswers, hevents]
    exact h.fresh i (hunwritten i hi)
  · rw [hclosed, hunanswered, hanswers]
    refine h.owed.imp_right (Or.imp_right ?_)
    rintro ⟨i, hi, hanswer, hwritten⟩
    exact ⟨i, hi, hanswer, fun hi' => hwritten (hunwritten i hi')⟩

/-- The request that is owed a reply was written. -/
lemma Ledger.ne_of_unwritten {s : State} (h : Ledger s) (hopen : s.closed = false) {i j : ℕ}
    (hhead : s.unanswered.head? = some i) (hj : s.Unwritten j) : j ≠ i := by
  rintro rfl
  rcases h.owed with hclosed | hnil | ⟨k, hk, -, hwritten⟩
  · rw [hopen] at hclosed
    cases hclosed
  · rw [hnil] at hhead
    cases hhead
  · rw [hk] at hhead
    cases hhead
    exact hwritten hj

/-- Nothing is owed while a call holds the mutex and has not written its request. -/
def State.Settled (s : State) : Prop := s.closed = true ∨ s.unanswered = []

lemma State.not_settled {s : State} (hopen : s.closed = false) {i : ℕ}
    (hhead : s.unanswered.head? = some i) : ¬ s.Settled := by
  rintro (hclosed | hnil)
  · rw [hopen] at hclosed
    cases hclosed
  · rw [hnil] at hhead
    cases hhead

/-! ### What is on its way -/

/-- Call `i` waits for its reply, with the messages `msgs` on their way. -/
inductive Awaiting (s : State) (i : ℕ) (c : Call) : List ServerMessage → Prop where
  /-- the server has not answered yet -/
  | owed {msgs : List ServerMessage} (hopen : ∀ msg ∈ msgs, msg.isTerminal = false)
      (hheard : c.op.isStream = true → c.received ++ msgs.filterMap eventOf = s.events i)
      (hanswer : s.answers i = none) (howed : s.closed = true ∨ s.unanswered = [i]) :
      Awaiting s i c msgs
  /-- the answer is on its way -/
  | answered {pre oob : List ServerMessage} {msg : ServerMessage}
      (hopen : ∀ msg ∈ pre, msg.isTerminal = false)
      (hheard : c.op.isStream = true → c.received ++ pre.filterMap eventOf = s.events i)
      (hterm : msg.isTerminal = true) (hanswer : s.answers i = some msg)
      (hoob : ∀ msg ∈ oob, msg.isOutOfBand = true) (hsettled : s.Settled) :
      Awaiting s i c (pre ++ msg :: oob)

lemma Awaiting.congr {s t : State} {i : ℕ} {c : Call} {msgs : List ServerMessage}
    (h : Awaiting s i c msgs) (hclosed : t.closed = s.closed)
    (hunanswered : t.unanswered = s.unanswered) (hevents : t.events i = s.events i)
    (hanswers : t.answers i = s.answers i) : Awaiting t i c msgs := by
  cases h with
  | owed hopen hheard hanswer howed =>
    exact .owed hopen (by rwa [hevents]) (by rwa [hanswers]) (by rwa [hclosed, hunanswered])
  | answered hopen hheard hterm hanswer hoob hsettled =>
    exact .answered hopen (by rwa [hevents]) hterm (by rwa [hanswers]) hoob
      (by rwa [State.Settled, hclosed, hunanswered])

/-- How a result is matched to what the server has sent for call `i`. -/
def State.Answers (s : State) (i : ℕ) (r : Result) : Prop :=
  (∀ resp, r = .response resp → s.answers i = some (.inferenceComplete resp)) ∧
    ∀ message, r = .error (.server message) → s.answers i = some (.inferenceError message)

/-- A terminal frame ends an inference with the answer it carries. -/
lemma State.answers_of_isTerminal {s : State} {i : ℕ} {op : Op} (hop : op.isInference = true)
    {msg : ServerMessage} (hmsg : msg.isTerminal = true) (hanswer : s.answers i = some msg) :
    ∃ r, op.handle (.ok (some msg)) = .finish r ∧ s.Answers i r := by
  cases msg with
  | inferenceComplete resp =>
    refine ⟨.response resp, ?_, ?_, nofun⟩
    · cases op <;> first | rfl | cases hop
    · rintro _ ⟨⟩
      exact hanswer
  | inferenceError message =>
    refine ⟨.error (.server message), ?_, nofun, ?_⟩
    · cases op <;> first | rfl | cases hop
    · rintro _ ⟨⟩
      exact hanswer
  | _ => cases hmsg

/-- The callback gets the next of the events that were sent. -/
lemma received_append {received later total : List StreamEvent} {ev : StreamEvent}
    (h : received ++ ev :: later = total) :
    received ++ [ev] <+: total ∧ (received ++ [ev]) ++ later = total := by
  rw [List.append_assoc]
  exact ⟨⟨later, by simpa using h⟩, h⟩

/-- A frame that is not terminal is passed over, or its event is the next one. -/
lemma Call.handle_of_not_isTerminal {c : Call} (hop : c.op.isInference = true)
    {msg : ServerMessage} (hmsg : msg.isTerminal = false) {pre : List ServerMessage}
    {total : List StreamEvent}
    (hheard : c.op.isStream = true → c.received ++ (msg :: pre).filterMap eventOf = total) :
    (c.op.handle (.ok (some msg)) = .goOn ∧
      (c.op.isStream = true → c.received ++ pre.filterMap eventOf = total)) ∨
    ∃ ev, c.op.handle (.ok (some msg)) = .event ev ∧ c.received ++ [ev] <+: total ∧
      (c.op.isStream = true → (c.received ++ [ev]) ++ pre.filterMap eventOf = total) := by
  rcases Op.handle_of_not_isTerminal hop hmsg with ⟨hhandle, hnone⟩ | ⟨ev, hhandle, hstream, hev⟩
  · refine .inl ⟨hhandle, fun hs => ?_⟩
    rw [← hheard hs, List.filterMap_cons_none (hnone hs)]
  · have hsent := hheard hstream
    rw [List.filterMap_cons_some hev] at hsent
    obtain ⟨hfirst, hrest⟩ := received_append hsent
    exact .inr ⟨ev, hhandle, hfirst, fun _ => hrest⟩

/-- Reading the next frame ends the call with its own answer, or leaves it waiting. -/
lemma Awaiting.take {s : State} {i : ℕ} {c : Call} {msg : ServerMessage}
    {msgs : List ServerMessage} (hop : c.op.isInference = true)
    (h : Awaiting s i c (msg :: msgs)) :
    (∃ r, c.op.handle (.ok (some msg)) = .finish r ∧ s.Answers i r ∧
      (∀ msg ∈ msgs, msg.isOutOfBand = true) ∧ s.Settled) ∨
    (c.op.handle (.ok (some msg)) = .goOn ∧ Awaiting s i c msgs) ∨
    ∃ ev, c.op.handle (.ok (some msg)) = .event ev ∧ c.received ++ [ev] <+: s.events i ∧
      Awaiting s i { c with received := c.received ++ [ev] } msgs := by
  generalize hl : msg :: msgs = l at h
  cases h with
  | owed hopen hheard hanswer howed =>
    subst hl
    obtain ⟨hmsg, hopen⟩ := List.forall_mem_cons.mp hopen
    rcases Call.handle_of_not_isTerminal hop hmsg hheard with
      ⟨hhandle, hheard'⟩ | ⟨ev, hhandle, hfirst, hheard'⟩
    · exact .inr (.inl ⟨hhandle, .owed hopen hheard' hanswer howed⟩)
    · exact .inr (.inr ⟨ev, hhandle, hfirst, .owed hopen hheard' hanswer howed⟩)
  | @answered pre oob answer hopen hheard hterm hanswer hoob hsettled =>
    cases pre with
    | nil =>
      obtain ⟨rfl, rfl⟩ := List.cons.inj hl
      obtain ⟨r, hhandle, hr⟩ := State.answers_of_isTerminal hop hterm hanswer
      exact .inl ⟨r, hhandle, hr, hoob, hsettled⟩
    | cons msg' pre =>
      obtain ⟨rfl, rfl⟩ := List.cons.inj hl
      obtain ⟨hmsg, hopen⟩ := List.forall_mem_cons.mp hopen
      rcases Call.handle_of_not_isTerminal hop hmsg hheard with
        ⟨hhandle, hheard'⟩ | ⟨ev, hhandle, hfirst, hheard'⟩
      · exact .inr (.inl ⟨hhandle, .answered hopen hheard' hterm hanswer hoob hsettled⟩)
      · exact .inr (.inr ⟨ev, hhandle, hfirst,
          .answered hopen hheard' hterm hanswer hoob hsettled⟩)

/-- What one read leaves on its way, by what the call does with the frame. -/
inductive Reads (s : State) (i : ℕ) (c : Call) : Handled → List ServerMessage → Prop where
  | skip {msgs : List ServerMessage} (hop : c.op.isInference = true) (h : Awaiting s i c msgs) :
      Reads s i c .goOn msgs
  | event {msgs : List ServerMessage} {ev : StreamEvent} (hop : c.op.isInference = true)
      (hev : c.received ++ [ev] <+: s.events i)
      (h : Awaiting s i { c with received := c.received ++ [ev] } msgs) :
      Reads s i c (.event ev) msgs
  | finish {msgs : List ServerMessage} {r : Result} (hr : s.Answers i r)
      (hoob : ∀ msg ∈ msgs, msg.isOutOfBand = true) (hsettled : s.Settled) :
      Reads s i c (.finish r) msgs
  /-- `shutdown` waits for `Goodbye` while nothing is on its way to a call -/
  | drain {msgs : List ServerMessage} (hop : c.op.isInference = false)
      (hoob : ∀ msg ∈ msgs, msg.isOutOfBand = true) (hsettled : s.Settled) :
      Reads s i c .goOn msgs

section Clean

variable [ToString BincodeError]

/-! ### The frames of the server -/

/-- The incremental decoder of the frames that the client waits for. -/
abbrev serverNext : Next IoError ServerMessage :=
  ModelApi.Framed.tryDecode Framed.MAX_FRAME_BYTES (Bincode.deserialize ServerMessage.format)

lemma frameOf_serverFrame {msg : ServerMessage} {frame : List UInt8}
    (h : serverFrame msg = .ok frame) : FrameOf serverNext frame msg := by
  refine ModelApi.Framed.frameOf_encode (by decide) ?_ h
  apply Bincode.deserialize_serialize
  exact (ModelApi.Framed.encode_eq_ok.mp h).1.trans_lt (by decide)

/-- The messages on their way to the client. -/
def State.Inbound (s : State) (msgs : List ServerMessage) : Prop :=
  Carries serverNext s.inbound s.closed msgs

/-- A frame that the server writes is behind all others. -/
lemma State.Inbound.send {s t : State} {msgs : List ServerMessage} (h : s.Inbound msgs)
    (hopen : s.closed = false) {msg : ServerMessage} {frame : List UInt8}
    (henc : serverFrame msg = .ok frame) (hinbound : t.inbound = s.inbound ++ frame)
    (hclosed : t.closed = s.closed) : t.Inbound (msgs ++ [msg]) := by
  rw [State.Inbound, hopen] at h
  rw [State.Inbound, hinbound, hclosed, hopen]
  exact h.append (frameOf_serverFrame henc) ModelApi.Framed.tryDecode_nil

/-- Every error of `read_frame` is an I/O error. -/
lemma readFrame_error {T : Type} {deserialize : List UInt8 → Except BincodeError T}
    {src src' : Source IoError} {e : ClientError}
    (h : readFrame deserialize src = some (.error e, src')) : ∃ context, e = .io context := by
  simp only [readFrame] at h
  split at h
  · cases h
  · split_ifs at h
    · cases h
    · cases h
      exact ⟨_, rfl⟩
  · cases h
  · split at h
    · cases h
    · cases h
      exact ⟨_, rfl⟩
    · split_ifs at h
      · cases h
        exact ⟨_, rfl⟩
      · split at h
        · cases h
        · cases h
          exact ⟨_, rfl⟩
        · split at h
          · cases h
            exact ⟨_, rfl⟩
          · cases h
  · cases h
    exact ⟨_, rfl⟩

lemma decided_serverNext : Decided serverNext := ModelApi.Framed.decided_tryDecode

lemma readServerFrame_readsAs {src src' : Source IoError}
    {result : Except ClientError (Option ServerMessage)} (hclean : CleanRead src)
    (h : readServerFrame src = some (result, src')) : ReadsAs serverNext src result src' :=
  readFrame_readsAs hclean h

/-- A clean read takes the first message, or finds that the server has hung up. -/
lemma State.Inbound.read {s : State} {msgs : List ServerMessage} (h : s.Inbound msgs)
    {src src' : Source IoError} {rest : List UInt8} (hmeets : Meets s src rest)
    (hclean : CleanRead src) {result : Except ClientError (Option ServerMessage)}
    (hread : readServerFrame src = some (result, src')) :
    (∃ msg msgs', msgs = msg :: msgs' ∧ result = .ok (some msg) ∧
      Carries serverNext (src'.bytes ++ rest) s.closed msgs') ∨
    ((result = .ok none ∨ ∃ context, result = .error (.io context)) ∧ s.closed = true ∧
      Carries serverNext (src'.bytes ++ rest) s.closed []) := by
  rw [State.Inbound, hmeets.bytes] at h
  have hungup : src.eof = true → s.closed = true ∧
      Carries serverNext (Source.bytes (⟨[], true⟩ : Source IoError) ++ rest) s.closed [] := by
    intro heof
    obtain ⟨hclosed, rfl⟩ := hmeets.eof heof
    exact ⟨hclosed, .nil ModelApi.Framed.tryDecode_nil⟩
  have hwhole : serverNext src.bytes ≠ .ok none →
      serverNext (src.bytes ++ rest) = serverNext src.bytes := decided_serverNext _ _
  cases readServerFrame_readsAs hclean hread with
  | eof hbytes heof => exact .inr ⟨.inl rfl, hungup heof⟩
  | @frame msg n src' hnext hn hdrop =>
    rw [hnext] at hwhole
    cases msgs with
    | nil => exact absurd (h.next_nil.symm.trans (hwhole nofun)) nofun
    | cons msg' msgs' =>
      obtain ⟨n', hnext', hrest⟩ := h.next_cons
      cases hnext'.symm.trans (hwhole nofun)
      refine .inl ⟨msg, msgs', rfl, rfl, ?_⟩
      rwa [List.drop_append_of_le_length hn, hdrop] at hrest
  | refused hnext =>
    rw [hnext] at hwhole
    cases msgs with
    | nil => exact absurd (h.next_nil.symm.trans (hwhole nofun)) nofun
    | cons msg msgs =>
      obtain ⟨n, hnext', -⟩ := h.next_cons
      exact absurd (hnext'.symm.trans (hwhole nofun)) nofun
  | truncated hnext hne heof =>
    obtain ⟨context, rfl⟩ := readFrame_error hread
    exact .inr ⟨.inr ⟨context, rfl⟩, hungup heof⟩

/-! ### The invariant -/

/-- Only a write that fails in the middle of a frame tears one. -/
lemma torn_of_step {s t : State} {l : Label} (h : s.torn = false) (hl : l.Clean)
    (hst : Step s l t) : t.torn = false := by
  cases hst with
  | writeFails hi hpc henc written =>
    simp [h, show written = 0 from hl]
  | _ => exact h

lemma Locking.step {s t : State} {l : Label} (h : Locking s) (hl : l.Clean)
    (hst : Step s l t) : Locking t :=
  have hexclusive := h.exclusive.step hst
  ⟨torn_of_step h.torn hl hst, hexclusive.holder, hexclusive.poisoned⟩

lemma Ledger.step {s t : State} {l : Label} (h : Ledger s)
    (hsettled : ∀ i c, s.calls i = some c → c.pc = .holding → s.Settled) (hst : Step s l t) :
    Ledger t := by
  have returned : ∀ {i : ℕ} {c : Call} {r : Result}, c.pc = .done r → ∀ j,
      (s.setCall i c).Unwritten j → s.Unwritten j := by
    intro i c r hc j hj
    apply hj.of_setCall
    rw [hc]
    rintro (hpc | hpc) <;> cases hpc
  have reads : ∀ {i : ℕ} {c : Call}, c.pc = .reading → ∀ j,
      (s.setCall i c).Unwritten j → s.Unwritten j := by
    intro i c hc j hj
    apply hj.of_setCall
    rw [hc]
    rintro (hpc | hpc) <;> cases hpc
  cases hst with
  | call i op hi =>
    refine h.congr (fun j hj => ?_) rfl rfl rfl rfl
    exact hj.of_setCall fun _ => State.unwritten_of_none hi
  | lock hi hpc =>
    refine h.congr (fun j hj => ?_) rfl rfl rfl rfl
    exact State.Unwritten.of_setCall hj fun _ => State.unwritten_of_some hi (.inl hpc)
  | @writeInference i c frame hi hpc henc hop =>
    have hi0 : s.Unwritten i := State.unwritten_of_some hi (.inr hpc)
    constructor
    · exact fun j hj => h.fresh j (reads rfl j hj)
    · rcases hsettled i c hi hpc with hclosed | hnone
      · exact .inl hclosed
      · refine .inr (.inr ⟨i, by simp [hnone], (h.fresh i hi0).1, fun hi' => ?_⟩)
        rcases hi' _ (Function.update_self ..) with hpc' | hpc' <;> cases hpc'
  | lockPoisoned => exact h.congr (returned rfl) rfl rfl rfl rfl
  | encodeFails => exact h.congr (returned rfl) rfl rfl rfl rfl
  | writeFails => exact h.congr (returned rfl) rfl rfl rfl rfl
  | writeShutdown => exact h.congr (reads rfl) rfl rfl rfl rfl
  | writeCancel => exact h.congr (returned rfl) rfl rfl rfl rfl
  | readEvent _ hpc => exact h.congr (reads hpc) rfl rfl rfl rfl
  | readPanics => exact h.congr (returned rfl) rfl rfl rfl rfl
  | readFinish => exact h.congr (returned rfl) rfl rfl rfl rfl
  | serveEvent ev hopen hhead =>
    refine ⟨fun j hj => ?_, h.owed⟩
    have hji := h.ne_of_unwritten hopen hhead hj
    exact ⟨(h.fresh j hj).1, (Function.update_of_ne hji ..).trans (h.fresh j hj).2⟩
  | serveTerminal msg hopen hhead =>
    constructor
    · intro j hj
      have hji := h.ne_of_unwritten hopen hhead hj
      exact ⟨(Function.update_of_ne hji ..).trans (h.fresh j hj).1, (h.fresh j hj).2⟩
    · rcases h.owed with hclosed | hnil | ⟨j, hj, -, -⟩
      · exact .inl hclosed
      · rw [hnil] at hhead
        cases hhead
      · exact .inr (.inl (by rw [hj]; rfl))
  | close => exact ⟨h.fresh, .inl rfl⟩
  | _ => exact ⟨h.fresh, h.owed⟩

/-- What is on its way fits what the calls wait for. -/
structure Stream (s : State) : Prop where
  quiet : s.poisoned = false →
    (∀ i c, s.calls i = some c → c.pc = .reading → c.op.isInference = false) →
    ∃ msgs, s.Inbound msgs ∧ (∀ msg ∈ msgs, msg.isOutOfBand = true) ∧ s.Settled
  awaiting : ∀ i c, s.calls i = some c → c.pc = .reading → c.op.isInference = true →
    ∃ msgs, s.Inbound msgs ∧ Awaiting s i c msgs

/-- The call is an inference that waits for its reply. -/
def State.WaitsFor (s : State) (i : ℕ) (c : Call) : Prop :=
  s.calls i = some c ∧ c.pc = .reading ∧ c.op.isInference = true

lemma Stream.quiet_of_forall {s : State} (h : Stream s) (hp : s.poisoned = false)
    (hnone : ∀ i c, ¬ s.WaitsFor i c) :
    ∃ msgs, s.Inbound msgs ∧ (∀ msg ∈ msgs, msg.isOutOfBand = true) ∧ s.Settled := by
  apply h.quiet hp
  intro i c hi hpc
  by_contra hop
  exact hnone i c ⟨hi, hpc, by simpa using hop⟩

/-- A step of a call that is not waiting for a reply leaves what is on its way alone. -/
lemma Stream.congr {s t : State} (h : Stream s) (hwaits : ∀ i c, t.WaitsFor i c ↔ s.WaitsFor i c)
    (hpoisoned : t.poisoned = s.poisoned) (hinbound : t.inbound = s.inbound)
    (hclosed : t.closed = s.closed) (hunanswered : t.unanswered = s.unanswered)
    (hevents : t.events = s.events) (hanswers : t.answers = s.answers) : Stream t := by
  constructor
  · intro hp hnone
    obtain ⟨msgs, hmsgs, hoob, hsettled⟩ := h.quiet_of_forall (hpoisoned ▸ hp) fun i c hw =>
      have hw' := (hwaits i c).mpr hw
      absurd hw'.2.2 (by rw [hnone i c hw'.1 hw'.2.1]; decide)
    refine ⟨msgs, ?_, hoob, ?_⟩
    · rwa [State.Inbound, hinbound, hclosed]
    · rwa [State.Settled, hclosed, hunanswered]
  · intro i c hi hpc hop
    obtain ⟨hi', hpc', hop'⟩ := (hwaits i c).mp ⟨hi, hpc, hop⟩
    obtain ⟨msgs, hmsgs, hawaiting⟩ := h.awaiting i c hi' hpc' hop'
    refine ⟨msgs, by rwa [State.Inbound, hinbound, hclosed], ?_⟩
    exact hawaiting.congr hclosed hunanswered (by rw [hevents]) (by rw [hanswers])

/-- The invariant of clean runs. -/
structure Inv (s : State) : Prop where
  locking : Locking s
  ledger : Ledger s
  stream : Stream s
  matched : Matched s

namespace Inv

variable {s : State}

lemma not_poisoned (h : Inv s) {i : ℕ} {c : Call} (hi : s.calls i = some c)
    (hpc : c.pc = .holding ∨ c.pc = .reading) : s.poisoned = false := by
  by_contra hp
  have hlock := h.locking.poisoned (by simpa using hp)
  rw [h.locking.holder i c hi hpc] at hlock
  cases hlock

/-- While a call holds the mutex without waiting for a reply, nothing is on its way to a call. -/
lemma quiet (h : Inv s) {i : ℕ} {c : Call} (hi : s.calls i = some c)
    (hpc : c.pc = .holding ∨ c.pc = .reading ∧ c.op.isInference = false) :
    ∃ msgs, s.Inbound msgs ∧ (∀ msg ∈ msgs, msg.isOutOfBand = true) ∧ s.Settled := by
  have hpc' : c.pc = .holding ∨ c.pc = .reading := hpc.imp_right And.left
  apply h.stream.quiet_of_forall (h.not_poisoned hi hpc')
  rintro j d ⟨hj, hpd, hop⟩
  obtain rfl := h.locking.exclusive.eq_of_past hi hpc' hj (.inr hpd)
  obtain rfl := Option.some.inj (hi.symm.trans hj)
  rcases hpc with hpc | ⟨-, hpc⟩
  · rw [hpd] at hpc
    cases hpc
  · rw [hop] at hpc
    cases hpc

lemma settled (h : Inv s) : ∀ i c, s.calls i = some c → c.pc = .holding → s.Settled := by
  intro i c hi hpc
  obtain ⟨-, -, -, hsettled⟩ := h.quiet hi (.inl hpc)
  exact hsettled

/-- The next request is written to a connection on which nothing is on its way. -/
lemma stream_writeInference (h : Inv s) {i : ℕ} {c : Call} (hi : s.calls i = some c)
    (hpc : c.pc = .holding) (hop : c.op.isInference = true) :
    Stream { s.setCall i { c with pc := .reading } with unanswered := s.unanswered ++ [i] } := by
  obtain ⟨msgs, hmsgs, hoob, hsettled⟩ := h.quiet hi (.inl hpc)
  obtain ⟨hanswer, hevents⟩ := h.ledger.fresh i (State.unwritten_of_some hi (.inr hpc))
  constructor
  · intro _ hnone
    have := hnone i { c with pc := .reading } (Function.update_self ..) rfl
    rw [hop] at this
    cases this
  · intro j d hj hpd _
    rcases State.setCall_cases hj with ⟨rfl, rfl⟩ | ⟨hji, hj⟩
    · refine ⟨msgs, hmsgs, .owed ?_ ?_ hanswer ?_⟩
      · exact fun msg hmsg => isTerminal_of_isOutOfBand (hoob msg hmsg)
      · intro _
        have hreceived := h.matched.received j c hi
        rw [hevents, List.prefix_nil] at hreceived
        simp only [State.setCall, hevents, hreceived, List.nil_append]
        exact List.filterMap_eq_nil_iff.mpr fun msg hmsg => eventOf_of_isOutOfBand (hoob msg hmsg)
      · exact hsettled.imp_right fun hnil => by rw [hnil]; rfl
    · exact absurd (h.locking.exclusive.eq_of_past hi (.inl hpc) hj (.inr hpd)) hji

/-- A clean read of call `i`. -/
lemma reads (h : Inv s) {i : ℕ} {c : Call} (hi : s.calls i = some c) (hpc : c.pc = .reading)
    {src src' : Source IoError} {rest : List UInt8} (hmeets : Meets s src rest)
    (hclean : CleanRead src) {result : Except ClientError (Option ServerMessage)}
    (hread : readServerFrame src = some (result, src')) :
    ∃ msgs, Carries serverNext (src'.bytes ++ rest) s.closed msgs ∧
      Reads s i c (c.op.handle result) msgs := by
  cases hop : c.op.isInference with
  | true =>
    obtain ⟨msgs, hmsgs, hawaiting⟩ := h.stream.awaiting i c hi hpc hop
    rcases hmsgs.read hmeets hclean hread with
      ⟨msg, msgs', rfl, rfl, hrest⟩ | ⟨hresult, hclosed, hrest⟩
    · refine ⟨msgs', hrest, ?_⟩
      rcases hawaiting.take hop with ⟨r, hhandle, hr, hoob, hsettled⟩ | ⟨hhandle, hawaiting'⟩ |
        ⟨ev, hhandle, hev, hawaiting'⟩
      · rw [hhandle]
        exact .finish hr hoob hsettled
      · rw [hhandle]
        exact .skip hop hawaiting'
      · rw [hhandle]
        exact .event hop hev hawaiting'
    · refine ⟨[], hrest, ?_⟩
      obtain ⟨e, hhandle, he⟩ := Op.handle_hungUp hop hresult
      rw [hhandle]
      exact .finish ⟨nofun, fun m hm => absurd (Result.error.inj hm) (he m)⟩ nofun (.inl hclosed)
  | false =>
    obtain ⟨msgs, hmsgs, hoob, hsettled⟩ := h.quiet hi (.inr ⟨hpc, hop⟩)
    have drained : ∀ {msgs : List ServerMessage}, (∀ message, result ≠ .error (.server message)) →
        (∀ msg ∈ msgs, msg.isOutOfBand = true) → s.Settled →
        Reads s i c (c.op.handle result) msgs := by
      intro msgs hresult hoob hsettled
      rcases Op.handle_of_not_isInference hop hresult with hhandle | ⟨r, hhandle, hr, hr'⟩
      · rw [hhandle]
        exact .drain hop hoob hsettled
      · rw [hhandle]
        exact .finish ⟨fun resp h => absurd h (hr resp), fun m h => absurd h (hr' m)⟩ hoob hsettled
    rcases hmsgs.read hmeets hclean hread with
      ⟨msg, msgs', rfl, rfl, hrest⟩ | ⟨hresult, hclosed, hrest⟩
    · exact ⟨msgs', hrest, drained nofun (fun m hm => hoob m (List.mem_cons_of_mem _ hm)) hsettled⟩
    · refine ⟨[], hrest, drained ?_ nofun (.inl hclosed)⟩
      rcases hresult with rfl | ⟨context, rfl⟩ <;> nofun

/-! ### One lemma for each kind of step -/

lemma readOn (h : Inv s) {i : ℕ} {c : Call} (hi : s.calls i = some c) (hpc : c.pc = .reading)
    {bs : List UInt8} {msgs : List ServerMessage} (hbs : Carries serverNext bs s.closed msgs)
    (hreads : Reads s i c .goOn msgs) : Stream { s with inbound := bs } := by
  constructor
  · intro _ hnone
    cases hreads with
    | skip hop _ => exact absurd (hnone i c hi hpc) (by rw [hop]; decide)
    | drain _ hoob hsettled => exact ⟨msgs, hbs, hoob, hsettled⟩
  · intro j d hj hpd hop
    obtain rfl := h.locking.exclusive.eq_of_past hi (.inr hpc) hj (.inr hpd)
    obtain rfl := Option.some.inj (hi.symm.trans hj)
    cases hreads with
    | skip _ hawaiting => exact ⟨msgs, hbs, hawaiting.congr rfl rfl rfl rfl⟩
    | drain hop' _ _ => exact absurd hop (by rw [hop']; decide)

lemma readEvent (h : Inv s) {i : ℕ} {c : Call} (hi : s.calls i = some c) (hpc : c.pc = .reading)
    {bs : List UInt8} {msgs : List ServerMessage} (hbs : Carries serverNext bs s.closed msgs)
    {ev : StreamEvent} (hreads : Reads s i c (.event ev) msgs) :
    Stream { s.setCall i { c with received := c.received ++ [ev] } with inbound := bs } := by
  obtain ⟨hop, -, hawaiting⟩ : c.op.isInference = true ∧ c.received ++ [ev] <+: s.events i ∧
      Awaiting s i { c with received := c.received ++ [ev] } msgs := by
    cases hreads with
    | event hop hev hawaiting => exact ⟨hop, hev, hawaiting⟩
  constructor
  · intro _ hnone
    have := hnone i { c with received := c.received ++ [ev] } (Function.update_self ..) hpc
    exact absurd hop (by rw [this]; decide)
  · intro j d hj hpd _
    rcases State.setCall_cases hj with ⟨rfl, rfl⟩ | ⟨hji, hj⟩
    · exact ⟨msgs, hbs, hawaiting.congr rfl rfl rfl rfl⟩
    · exact absurd (h.locking.exclusive.eq_of_past hi (.inr hpc) hj (.inr hpd)) hji

/-- Once the holder of the mutex has returned, no call waits for a reply. -/
lemma not_waitsFor_release (h : Inv s) {i : ℕ} {c : Call} (hi : s.calls i = some c)
    (hpc : c.pc = .holding ∨ c.pc = .reading) (c' : Call) (r : Result) (hc' : c'.pc = .done r)
    {j : ℕ} {d : Call} (hj : (s.setCall i c').calls j = some d) (hpd : d.pc = .reading) :
    False := by
  rcases State.setCall_cases hj with ⟨rfl, rfl⟩ | ⟨hji, hj⟩
  · rw [hc'] at hpd
    cases hpd
  · exact hji (h.locking.exclusive.eq_of_past hi hpc hj (.inr hpd))

lemma readFinish (h : Inv s) {i : ℕ} {c : Call} (hi : s.calls i = some c) (hpc : c.pc = .reading)
    {bs : List UInt8} {msgs : List ServerMessage} (hbs : Carries serverNext bs s.closed msgs)
    {r : Result} (hreads : Reads s i c (.finish r) msgs) :
    Stream { s.release i c r with inbound := bs } := by
  constructor
  · intro _ _
    cases hreads with
    | finish _ hoob hsettled => exact ⟨msgs, hbs, hoob, hsettled⟩
  · intro j d hj hpd _
    exact (h.not_waitsFor_release hi (.inr hpc) _ r rfl hj hpd).elim

lemma readPanics (h : Inv s) {i : ℕ} {c : Call} (hi : s.calls i = some c) (hpc : c.pc = .reading)
    (bs : List UInt8) (c' : Call) :
    Stream { s.release i c' .panicked with inbound := bs, poisoned := true } := by
  constructor
  · intro hp
    cases hp
  · intro j d hj hpd _
    exact (h.not_waitsFor_release hi (.inr hpc) _ .panicked rfl hj hpd).elim

/-- While a reply is owed, the call that waits is the one it is owed to. -/
lemma owed (h : Inv s) {i : ℕ} (hopen : s.closed = false) (hhead : s.unanswered.head? = some i)
    {j : ℕ} {d : Call} (hj : s.WaitsFor j d) :
    j = i ∧ s.unanswered = [i] ∧ ∃ msgs, s.Inbound msgs ∧
      (∀ msg ∈ msgs, msg.isTerminal = false) ∧
      (d.op.isStream = true → d.received ++ msgs.filterMap eventOf = s.events j) ∧
      s.answers j = none := by
  obtain ⟨msgs, hmsgs, hawaiting⟩ := h.stream.awaiting j d hj.1 hj.2.1 hj.2.2
  cases hawaiting with
  | answered _ _ _ _ _ hsettled => exact absurd hsettled (State.not_settled hopen hhead)
  | owed hmsgsOpen hheard hanswer howed =>
    have hone : s.unanswered = [j] := howed.resolve_left (by rw [hopen]; decide)
    obtain rfl : j = i := by
      rw [hone] at hhead
      exact Option.some.inj hhead
    exact ⟨rfl, hone, msgs, hmsgs, hmsgsOpen, hheard, hanswer⟩

/-- The server sends an event for the request it owes a reply to. -/
lemma serveEvent (h : Inv s) {i : ℕ} {frame : List UInt8} (ev : StreamEvent)
    (hopen : s.closed = false) (hhead : s.unanswered.head? = some i)
    (henc : serverFrame ev.frame = .ok frame) :
    Stream { s with
      inbound := s.inbound ++ frame
      events := Function.update s.events i (s.events i ++ [ev]) } := by
  constructor
  · intro hp hnone
    obtain ⟨msgs, -, -, hsettled⟩ := h.stream.quiet hp hnone
    exact absurd hsettled (State.not_settled hopen hhead)
  · intro j d hj hpd hop
    obtain ⟨rfl, hone, msgs, hmsgs, hmsgsOpen, hheard, hanswer⟩ := h.owed hopen hhead ⟨hj, hpd, hop⟩
    refine ⟨msgs ++ [ev.frame], ?_, .owed ?_ ?_ hanswer (.inr hone)⟩
    · exact hmsgs.send hopen henc rfl rfl
    · intro msg hmsg
      rcases List.mem_append.mp hmsg with hmsg | hmsg
      · exact hmsgsOpen msg hmsg
      · rw [List.mem_singleton.mp hmsg, isTerminal_frame]
    · intro hstream
      rw [List.filterMap_append, ← List.append_assoc, hheard hstream]
      simp

/-- The server ends the request it owes a reply to. -/
lemma serveTerminal (h : Inv s) {i : ℕ} {frame : List UInt8} (msg : ServerMessage)
    (hopen : s.closed = false) (hhead : s.unanswered.head? = some i)
    (hterm : msg.isTerminal = true) (henc : serverFrame msg = .ok frame) :
    Stream { s with
      inbound := s.inbound ++ frame
      unanswered := s.unanswered.tail
      answers := Function.update s.answers i (some msg) } := by
  constructor
  · intro hp hnone
    obtain ⟨msgs, -, -, hsettled⟩ := h.stream.quiet hp hnone
    exact absurd hsettled (State.not_settled hopen hhead)
  · intro j d hj hpd hop
    obtain ⟨rfl, hone, msgs, hmsgs, hmsgsOpen, hheard, -⟩ := h.owed hopen hhead ⟨hj, hpd, hop⟩
    refine ⟨msgs ++ [msg], ?_, ?_⟩
    · exact hmsgs.send hopen henc rfl rfl
    · exact .answered hmsgsOpen hheard hterm (Function.update_self ..) nofun
        (.inr (by simp only [hone, List.tail_cons]))

/-- `Hello` and `Goodbye` make no difference to what the calls wait for. -/
lemma serveOutOfBand (h : Inv s) {frame : List UInt8} (msg : ServerMessage)
    (hopen : s.closed = false) (hoob : msg.isOutOfBand = true)
    (henc : serverFrame msg = .ok frame) : Stream { s with inbound := s.inbound ++ frame } := by
  have hall : ∀ {msgs : List ServerMessage}, (∀ m ∈ msgs, m.isOutOfBand = true) →
      ∀ m ∈ msgs ++ [msg], m.isOutOfBand = true := by
    intro msgs hmsgs m hm
    rcases List.mem_append.mp hm with hm | hm
    · exact hmsgs m hm
    · rwa [List.mem_singleton.mp hm]
  constructor
  · intro hp hnone
    obtain ⟨msgs, hmsgs, hmsgsOob, hsettled⟩ := h.stream.quiet hp hnone
    exact ⟨msgs ++ [msg], hmsgs.send hopen henc rfl rfl, hall hmsgsOob, hsettled⟩
  · intro j d hj hpd hop
    obtain ⟨msgs, hmsgs, hawaiting⟩ := h.stream.awaiting j d hj hpd hop
    refine ⟨msgs ++ [msg], hmsgs.send hopen henc rfl rfl, ?_⟩
    cases hawaiting with
    | owed hmsgsOpen hheard hanswer howed =>
      refine .owed ?_ ?_ hanswer howed
      · intro m hm
        rcases List.mem_append.mp hm with hm | hm
        · exact hmsgsOpen m hm
        · rw [List.mem_singleton.mp hm, isTerminal_of_isOutOfBand hoob]
      · intro hstream
        rw [List.filterMap_append, ← hheard hstream]
        simp [eventOf_of_isOutOfBand hoob]
    | answered hmsgsOpen hheard hterm hanswer hmsgsOob hsettled =>
      rw [List.append_assoc, List.cons_append]
      exact .answered hmsgsOpen hheard hterm hanswer (hall hmsgsOob) hsettled

/-- The server hangs up. -/
lemma close (h : Inv s) {frame cut : List UInt8} {msg : ServerMessage} (hopen : s.closed = false)
    (henc : serverFrame msg = .ok frame) (hcut : cut <+: frame) (hne : cut ≠ frame) :
    Stream { s with inbound := s.inbound ++ cut, closed := true } := by
  have hclose : ∀ {msgs}, s.Inbound msgs →
      State.Inbound { s with inbound := s.inbound ++ cut, closed := true } msgs := by
    intro msgs hmsgs
    simp only [State.Inbound, hopen] at hmsgs ⊢
    exact hmsgs.close (frameOf_serverFrame henc) hcut hne
  constructor
  · intro hp hnone
    obtain ⟨msgs, hmsgs, hoob, -⟩ := h.stream.quiet hp hnone
    exact ⟨msgs, hclose hmsgs, hoob, .inl rfl⟩
  · intro j d hj hpd hop
    obtain ⟨msgs, hmsgs, hawaiting⟩ := h.stream.awaiting j d hj hpd hop
    refine ⟨msgs, hclose hmsgs, ?_⟩
    cases hawaiting with
    | owed hmsgsOpen hheard hanswer _ => exact .owed hmsgsOpen hheard hanswer (.inl rfl)
    | answered hmsgsOpen hheard hterm hanswer hoob _ =>
      exact .answered hmsgsOpen hheard hterm hanswer hoob (.inl rfl)

/-- A step of a call that has not written its request, and does not write one now. -/
lemma stream_setCall (h : Inv s) {i : ℕ} {c' : Call} (hi : s.Unwritten i)
    (hc' : c'.pc = .reading → c'.op.isInference = false) (lock : Option ℕ) (torn : Bool) :
    Stream { s with
      calls := Function.update s.calls i (some c'), lock := lock, torn := torn } := by
  refine h.stream.congr (fun j d => ?_) rfl rfl rfl rfl rfl rfl
  by_cases hji : j = i
  · subst hji
    constructor
    · rintro ⟨hj, hpd, hop⟩
      obtain rfl := Option.some.inj ((Function.update_self j _ s.calls).symm.trans hj)
      exact absurd hop (by rw [hc' hpd]; decide)
    · rintro ⟨hj, hpd, -⟩
      rcases hi d hj with hpd' | hpd' <;> rw [hpd] at hpd' <;> cases hpd'
  · simp only [State.WaitsFor, Function.update_of_ne hji]

lemma stream_step (h : Inv s) {t : State} {l : Label} (hl : l.Clean) (hst : Step s l t) :
    Stream t := by
  cases hst with
  | call i op hi =>
    exact h.stream_setCall (State.unwritten_of_none hi) (fun hpc => by cases hpc) _ _
  | lock hi hpc =>
    exact h.stream_setCall (State.unwritten_of_some hi (.inl hpc)) (fun hpc => by cases hpc) _ _
  | lockPoisoned hi hpc =>
    exact h.stream_setCall (State.unwritten_of_some hi (.inl hpc)) (fun hpc => by cases hpc) _ _
  | encodeFails hi hpc =>
    exact h.stream_setCall (State.unwritten_of_some hi (.inr hpc)) (fun hpc => by cases hpc) _ _
  | writeFails hi hpc =>
    exact h.stream_setCall (State.unwritten_of_some hi (.inr hpc)) (fun hpc => by cases hpc) _ _
  | writeInference hi hpc _ hop => exact h.stream_writeInference hi hpc hop
  | writeShutdown hi hpc _ hop =>
    exact h.stream_setCall (State.unwritten_of_some hi (.inr hpc)) (fun _ => by rw [hop]; rfl) _ _
  | writeCancel hi hpc =>
    exact h.stream_setCall (State.unwritten_of_some hi (.inr hpc)) (fun hpc => by cases hpc) _ _
  | readOn hi hpc hmeets hread hhandle =>
    obtain ⟨msgs, hbs, hreads⟩ := h.reads hi hpc hmeets hl hread
    exact h.readOn hi hpc hbs (hhandle ▸ hreads)
  | readEvent hi hpc hmeets hread hhandle =>
    obtain ⟨msgs, hbs, hreads⟩ := h.reads hi hpc hmeets hl hread
    exact h.readEvent hi hpc hbs (hhandle ▸ hreads)
  | readPanics hi hpc => exact h.readPanics hi hpc _ _
  | readFinish hi hpc hmeets hread hhandle =>
    obtain ⟨msgs, hbs, hreads⟩ := h.reads hi hpc hmeets hl hread
    exact h.readFinish hi hpc hbs (hhandle ▸ hreads)
  | serveEvent ev hopen hhead henc => exact h.serveEvent ev hopen hhead henc
  | serveTerminal msg hopen hhead hterm henc => exact h.serveTerminal msg hopen hhead hterm henc
  | serveOutOfBand msg hopen hoob henc => exact h.serveOutOfBand msg hopen hoob henc
  | serveStray msg _ htorn =>
    rw [h.locking.torn] at htorn
    cases htorn
  | close hopen henc hcut hne => exact h.close hopen henc hcut hne

lemma matched_setCall (h : Inv s) {t : State} {i : ℕ} {c' : Call}
    (hcalls : t.calls = Function.update s.calls i (some c')) (hanswers : t.answers = s.answers)
    (hevents : t.events = s.events) (hr : ∀ r, c'.pc = .done r → s.Answers i r)
    (hreceived : c'.received <+: s.events i) : Matched t := by
  have hcase : ∀ j d, t.calls j = some d → j = i ∧ d = c' ∨ j ≠ i ∧ s.calls j = some d := by
    intro j d hj
    rw [hcalls] at hj
    exact State.setCall_cases hj
  constructor
  · intro j d resp hj hpd
    rw [hanswers]
    rcases hcase j d hj with ⟨rfl, rfl⟩ | ⟨-, hj⟩
    · exact (hr _ hpd).1 resp rfl
    · exact h.matched.response j d resp hj hpd
  · intro j d message hj hpd
    rw [hanswers]
    rcases hcase j d hj with ⟨rfl, rfl⟩ | ⟨-, hj⟩
    · exact (hr _ hpd).2 message rfl
    · exact h.matched.server j d message hj hpd
  · intro j d hj
    rw [hevents]
    rcases hcase j d hj with ⟨rfl, rfl⟩ | ⟨-, hj⟩
    · exact hreceived
    · exact h.matched.received j d hj

lemma matched_step (h : Inv s) {t : State} {l : Label} (hl : l.Clean) (hst : Step s l t) :
    Matched t := by
  have keep := h.matched.received
  cases hst with
  | call i op hi => exact h.matched_setCall rfl rfl rfl nofun List.nil_prefix
  | lock hi => exact h.matched_setCall rfl rfl rfl nofun (keep _ _ hi :)
  | lockPoisoned hi =>
    refine h.matched_setCall rfl rfl rfl ?_ (keep _ _ hi :)
    rintro _ ⟨⟩
    exact ⟨nofun, nofun⟩
  | encodeFails hi =>
    refine h.matched_setCall rfl rfl rfl ?_ (keep _ _ hi :)
    rintro _ ⟨⟩
    exact ⟨nofun, nofun⟩
  | writeFails hi =>
    refine h.matched_setCall rfl rfl rfl ?_ (keep _ _ hi :)
    rintro _ ⟨⟩
    exact ⟨nofun, nofun⟩
  | writeInference hi => exact h.matched_setCall rfl rfl rfl nofun (keep _ _ hi :)
  | writeShutdown hi => exact h.matched_setCall rfl rfl rfl nofun (keep _ _ hi :)
  | writeCancel hi =>
    refine h.matched_setCall rfl rfl rfl ?_ (keep _ _ hi :)
    rintro _ ⟨⟩
    exact ⟨nofun, nofun⟩
  | readOn => exact ⟨h.matched.response, h.matched.server, h.matched.received⟩
  | readEvent hi hpc hmeets hread hhandle =>
    obtain ⟨msgs, -, hreads⟩ := h.reads hi hpc hmeets hl hread
    rw [hhandle] at hreads
    cases hreads with
    | event _ hev _ =>
      refine h.matched_setCall rfl rfl rfl (fun r hr => ?_) hev
      rw [show _ = Pc.reading from hpc] at hr
      cases hr
  | readPanics hi hpc hmeets hread hhandle =>
    obtain ⟨msgs, -, hreads⟩ := h.reads hi hpc hmeets hl hread
    rw [hhandle] at hreads
    cases hreads with
    | event _ hev _ =>
      refine h.matched_setCall rfl rfl rfl ?_ hev
      rintro _ ⟨⟩
      exact ⟨nofun, nofun⟩
  | readFinish hi hpc hmeets hread hhandle =>
    obtain ⟨msgs, -, hreads⟩ := h.reads hi hpc hmeets hl hread
    rw [hhandle] at hreads
    cases hreads with
    | finish hr _ _ =>
      refine h.matched_setCall rfl rfl rfl ?_ (keep _ _ hi :)
      rintro _ ⟨⟩
      exact hr
  | @serveEvent i frame ev =>
    refine ⟨h.matched.response, h.matched.server, fun j d hj => ?_⟩
    show d.received <+: Function.update s.events i (s.events i ++ [ev]) j
    by_cases hji : j = i
    · subst hji
      rw [Function.update_self]
      exact (keep _ _ hj).trans (List.prefix_append _ _)
    · rw [Function.update_of_ne hji]
      exact keep _ _ hj
  | @serveTerminal i frame msg hopen hhead =>
    have hnone : s.answers i = none := h.ledger.answers_eq_none hopen hhead
    have hother : ∀ j, s.answers j ≠ none →
        Function.update s.answers i (some msg) j = s.answers j := by
      intro j hj
      exact Function.update_of_ne (by rintro rfl; exact hj hnone) ..
    refine ⟨fun j d resp hj hpd => ?_, fun j d message hj hpd => ?_, h.matched.received⟩
    · have hanswer := h.matched.response j d resp hj hpd
      exact (hother j (by rw [hanswer]; nofun)).trans hanswer
    · have hanswer := h.matched.server j d message hj hpd
      exact (hother j (by rw [hanswer]; nofun)).trans hanswer
  | serveOutOfBand => exact ⟨h.matched.response, h.matched.server, h.matched.received⟩
  | serveStray => exact ⟨h.matched.response, h.matched.server, h.matched.received⟩
  | close => exact ⟨h.matched.response, h.matched.server, h.matched.received⟩

lemma step (h : Inv s) {t : State} {l : Label} (hl : l.Clean) (hst : Step s l t) : Inv t where
  locking := h.locking.step hl hst
  ledger := h.ledger.step h.settled hst
  stream := h.stream_step hl hst
  matched := h.matched_step hl hst

lemma init : Inv State.init := by
  have hcalls : ∀ i c, State.init.calls i ≠ some c := by
    intro i c h
    cases h
  constructor
  · exact ⟨rfl, fun i c h => absurd h (hcalls i c), fun _ => rfl⟩
  · exact ⟨fun _ _ => ⟨rfl, rfl⟩, .inr (.inl rfl)⟩
  · constructor
    · intro _ _
      exact ⟨[], .nil ModelApi.Framed.tryDecode_nil, by simp, .inr rfl⟩
    · exact fun i c h => absurd h (hcalls i c)
  · exact ⟨fun i c _ h => absurd h (hcalls i c), fun i c _ h => absurd h (hcalls i c),
      fun i c h => absurd h (hcalls i c)⟩

end Inv

/-- In every run whose reads and writes do not fail, whatever the threads and the server do,
every reply is the reply to the request of the very call that returns it. -/
theorem matched_of_cleanConnection {s : State} (h : cleanConnection.Reachable s) : Matched s := by
  refine (h.invariant (P := Inv) ?_ ?_).matched
  · rintro _ rfl
    exact .init
  · rintro _ _ ⟨l, hl, hst⟩ hs
    exact hs.step hl hst

end Clean

/-! ### Two runs -/

@[reducible] def demoText : ToString BincodeError := ⟨fun _ => "bincode error"⟩

def demoOp : Op := .inference (.plain .stateless [.user "hi"])

def demoReply : ServerMessage := .inferenceError "no"

/-- The source that holds the frame of `demoReply`. -/
def demoSource : Source IoError :=
  ⟨[.data 14 [0, 0, 0, 4, 0, 0, 0, 2, 0, 0, 0, 0, 0, 0, 0, 110, 111]], false⟩

lemma serverFrame_demoReply : serverFrame demoReply = .ok demoSource.bytes := rfl

lemma readServerFrame_demoSource [ToString BincodeError] :
    readServerFrame demoSource = some (.ok (some demoReply), ⟨[], false⟩) := rfl

/-- Another reply, and the source that holds its frame. -/
def otherReply : ServerMessage := .inferenceError "nay"

def otherSource : Source IoError :=
  ⟨[.data 15 [0, 0, 0, 4, 0, 0, 0, 3, 0, 0, 0, 0, 0, 0, 0, 110, 97, 121]], false⟩

lemma serverFrame_otherReply : serverFrame otherReply = .ok otherSource.bytes := rfl

lemma readServerFrame_otherSource [ToString BincodeError] :
    readServerFrame otherSource = some (.ok (some otherReply), ⟨[], false⟩) := rfl

lemma cleanRead_data (b : UInt8) (bs : List UInt8) : CleanRead ⟨[.data b bs], false⟩ := by
  constructor
  · intro e he
    cases he
  · intro e he
    cases List.mem_singleton.mp he

/-- Two calls at the same time, of which the second waits for the first: each returns the reply to
its own request. -/
theorem matched_of_cleanConnection_demo : ∃ s, (@cleanConnection demoText).Reachable s ∧
    s.calls 0 = some ⟨demoOp, .done (.error (.server "no")), []⟩ ∧
    s.calls 1 = some ⟨demoOp, .done (.error (.server "nay")), []⟩ ∧
    s.answers 0 = some demoReply ∧ s.answers 1 = some otherReply ∧ Matched s := by
  let _ := demoText
  have h0 : cleanConnection.Reachable State.init := .of_init rfl
  have h1 := h0.step ⟨.tau, trivial, .call 0 demoOp rfl⟩
  have h2 := h1.step ⟨.tau, trivial, .call 1 demoOp rfl⟩
  have h3 := h2.step ⟨.tau, trivial, .lock (i := 0) rfl rfl rfl rfl⟩
  have h4 := h3.step ⟨.tau, trivial, .writeInference (i := 0) rfl rfl rfl rfl⟩
  have h5 := h4.step ⟨.tau, trivial, .serveTerminal _ rfl rfl rfl serverFrame_demoReply⟩
  have h6 := h5.step ⟨.read demoSource, cleanRead_data _ _, .readFinish (i := 0) rfl rfl
    (show Meets _ demoSource [] from ⟨rfl, nofun⟩) readServerFrame_demoSource rfl⟩
  -- the mutex is free for the second call
  have h7 := h6.step ⟨.tau, trivial, .lock (i := 1) rfl rfl rfl rfl⟩
  have h8 := h7.step ⟨.tau, trivial, .writeInference (i := 1) rfl rfl rfl rfl⟩
  have h9 := h8.step ⟨.tau, trivial, .serveTerminal _ rfl rfl rfl serverFrame_otherReply⟩
  have h10 := h9.step ⟨.read otherSource, cleanRead_data _ _, .readFinish (i := 1) rfl rfl
    (show Meets _ otherSource [] from ⟨rfl, nofun⟩) readServerFrame_otherSource rfl⟩
  exact ⟨_, h10, rfl, rfl, rfl, rfl, matched_of_cleanConnection h10⟩

/-- A signal interrupts the read of the first byte. -/
def interruptedSource : Source IoError :=
  ⟨[.fault ⟨.interrupted, "Interrupted system call"⟩], false⟩

/-- A call that gave up on an interrupted read leaves its reply to the next call. -/
theorem interrupted_read_mismatches :
    ¬ ∀ s, (@connection demoText).Reachable s → Matched s := by
  intro hclaim
  let _ := demoText
  have h0 : connection.Reachable State.init := .of_init rfl
  -- the first call gives up before the server has answered
  have h1 := h0.step ⟨_, .call 0 demoOp rfl⟩
  have h2 := h1.step ⟨_, .lock (i := 0) rfl rfl rfl rfl⟩
  have h3 := h2.step ⟨_, .writeInference (i := 0) rfl rfl rfl rfl⟩
  have h4 := h3.step ⟨_, .readFinish (i := 0) rfl rfl
    (show Meets _ interruptedSource [] from ⟨rfl, nofun⟩) rfl rfl⟩
  -- its reply arrives while the second call waits
  have h5 := h4.step ⟨_, .call 1 demoOp rfl⟩
  have h6 := h5.step ⟨_, .lock (i := 1) rfl rfl rfl rfl⟩
  have h7 := h6.step ⟨_, .writeInference (i := 1) rfl rfl rfl rfl⟩
  have h8 := h7.step ⟨_, .serveTerminal _ rfl rfl rfl serverFrame_demoReply⟩
  have h9 := h8.step ⟨_, .readFinish (i := 1) rfl rfl
    (show Meets _ demoSource [] from ⟨rfl, nofun⟩) readServerFrame_demoSource rfl⟩
  have hmatched := (hclaim _ h9).server 1 _ "no" rfl rfl
  cases hmatched

end ModelApi.Client
