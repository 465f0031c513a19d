import ModelApi.Link.Delivery
import ModelApi.Link.Smooth
import ModelApi.Client.Readers

/-!
# No call is stuck

From every state of a client and a handler there is a run in which nothing fails, and in which a
given call returns: the call that holds the mutex is served to its end, and then the next one gets
the mutex. An inference returns an answer of the slot, unless something had gone wrong before.
-/

namespace ModelApi

open Lib

namespace Client

/-! ### The end of a call -/

/-- Only an answer of the server ends an inference that has read a message. -/
lemma Op.isReply_of_finish {op : Op} (hop : op.isInference = true) {msg : ServerMessage}
    {r : Result} (h : op.handle (.ok (some msg)) = .finish r) : r.IsReply := by
  cases hmsg : msg.isTerminal with
  | false =>
    rcases Op.handle_of_not_isTerminal hop hmsg with ⟨hgo, -⟩ | ⟨ev, hgo, -⟩ <;>
      · rw [hgo] at h
        cases h
  | true =>
    cases op with
    | cancel | shutdown => cases hop
    | inference req | inferenceStream req =>
      cases msg with
      | inferenceComplete resp =>
        cases h
        exact .inl ⟨resp, rfl⟩
      | inferenceError message =>
        cases h
        exact .inr ⟨message, rfl⟩
      | hello | chunk | progress | goodbye => cases hmsg

lemma Op.finish_of_isTerminal {op : Op} (hop : op.isInference = true) {msg : ServerMessage}
    (hmsg : msg.isTerminal = true) : ∃ r, op.handle (.ok (some msg)) = .finish r := by
  cases op with
  | cancel | shutdown => cases hop
  | inference req | inferenceStream req =>
    cases msg with
    | inferenceComplete | inferenceError => exact ⟨_, rfl⟩
    | hello | chunk | progress | goodbye => cases hmsg

/-- Every method ends where the server has hung up. -/
lemma Op.finish_of_hungUp (op : Op) {result : Except ClientError (Option ServerMessage)}
    (hresult : result = .ok none ∨ ∃ context, result = .error (.io context)) :
    ∃ r, op.handle result = .finish r := by
  rcases hresult with rfl | ⟨context, rfl⟩ <;> cases op <;> exact ⟨_, rfl⟩

variable [ToString BincodeError] {s t : State} {l : Label} {i : ℕ}

/-- The mutex is held by a call that has not returned. -/
def Owned (s : State) : Prop :=
  ∀ j, s.lock = some j → ∃ d, s.calls j = some d ∧ (d.pc = .holding ∨ d.pc = .reading)

lemma Owned.step (h : Owned s) (hst : Step s l t) : Owned t := by
  have moves : ∀ {i : ℕ} {c' : Call}, (c'.pc = .holding ∨ c'.pc = .reading) → ∀ j,
      s.lock = some j → ∃ d, (s.setCall i c').calls j = some d ∧
        (d.pc = .holding ∨ d.pc = .reading) := by
    intro i c' hc' j hj
    by_cases hji : j = i
    · subst hji
      exact ⟨c', Function.update_self .., hc'⟩
    · obtain ⟨d, hd, hpd⟩ := h j hj
      exact ⟨d, (Function.update_of_ne hji ..).trans hd, hpd⟩
  intro j hj
  cases hst with
  | @call i op hi =>
    obtain ⟨d, hd, hpd⟩ := h j hj
    have hji : j ≠ i := by
      rintro rfl
      rw [hi] at hd
      cases hd
    exact ⟨d, (Function.update_of_ne hji ..).trans hd, hpd⟩
  | lock =>
    cases hj
    exact ⟨_, Function.update_self .., .inl rfl⟩
  | writeInference | writeShutdown => exact moves (.inr rfl) j hj
  | readEvent _ hpc =>
    refine moves ?_ j hj
    exact .inr hpc
  | lockPoisoned | encodeFails | writeFails | writeCancel | readPanics | readFinish => cases hj
  | readOn | serveEvent | serveTerminal | serveOutOfBand | serveStray | close => exact h j hj

/-- A call that is reading without having written was reading before. -/
lemma Quiet.reading (hquiet : Quiet s t) (hst : Step s l t) {c : Call}
    (hi : t.calls i = some c) (hpc : c.pc = .reading) :
    ∃ d, s.calls i = some d ∧ d.op = c.op ∧ d.pc = .reading := by
  have other : ∀ {j : ℕ} {d d' : Call}, s.calls j = some d →
      (d'.pc = .reading → d'.op = d.op ∧ d.pc = .reading) → (s.setCall j d').calls i = some c →
      ∃ d, s.calls i = some d ∧ d.op = c.op ∧ d.pc = .reading := by
    intro j d d' hj hd hset
    rcases State.setCall_cases hset with ⟨rfl, rfl⟩ | ⟨-, hsame⟩
    · obtain ⟨hop, hpd⟩ := hd hpc
      exact ⟨d, hj, hop.symm, hpd⟩
    · exact ⟨c, hsame, rfl, hpc⟩
  have wrote : ∀ {j : ℕ} {d : Call}, s.calls j = some d → d.pc = .holding →
      t.calls j ≠ some { d with pc := .reading } := by
    intro j d hj hd hset
    obtain ⟨d', hj', hd'⟩ := hquiet.holding j d hj hd
    cases hset.symm.trans hj'
    rcases hd' with hd' | ⟨e, hd'⟩ <;> cases hd'
  cases hst with
  | @call j op hj =>
    rcases State.setCall_cases hi with ⟨rfl, rfl⟩ | ⟨-, hsame⟩
    · cases hpc
    · exact ⟨c, hsame, rfl, hpc⟩
  | lock hj | lockPoisoned hj | encodeFails hj | writeFails hj | writeCancel hj | readPanics hj
  | readFinish hj => exact other hj (fun hd => by cases hd) hi
  | writeInference hj hd | writeShutdown hj hd =>
    exact absurd (Function.update_self ..) (wrote hj hd)
  | readEvent hj hd =>
    refine other hj ?_ hi
    exact fun _ => ⟨rfl, hd⟩
  | readOn | serveEvent | serveTerminal | serveOutOfBand | serveStray | close =>
    exact ⟨c, hi, rfl, hpc⟩

end Client

namespace Link

open Client Server

variable [ToString BincodeError] {cfg : Server.Config} {clientVersion : UInt32}
  {debug : ServerMessage → String} {s t : State}

/-! ### What the calls rest on -/

/-- What holds of the mutex, of the calls that read and of the end of the client. -/
structure Live (s : State) : Prop where
  owned : Owned s.client
  asked : ∀ i c, s.client.calls i = some c → c.pc = .reading →
    c.op.isInference = true ∨ .shutdown ∈ s.sent
  left : s.upClosed = true → ∀ i c, s.client.calls i = some c → ∃ r, c.pc = .done r

omit [ToString BincodeError] in
/-- The handler moves, or the client connects. -/
lemma Live.congr (h : Live s) (hcalls : t.client.calls = s.client.calls)
    (hlock : t.client.lock = s.client.lock) (hsent : s.sent ⊆ t.sent)
    (hleft : t.upClosed = true → ∀ i c, s.client.calls i = some c → ∃ r, c.pc = .done r) :
    Live t where
  owned := by
    rw [Owned, hlock, hcalls]
    exact h.owned
  asked := by
    rw [hcalls]
    exact fun i c hi hpc => (h.asked i c hi hpc).imp_right fun hmem => hsent hmem
  left := by
    rw [hcalls]
    exact hleft

lemma Live.step (h : Live s) (hinv : Inv cfg clientVersion s)
    (hst : Step cfg clientVersion debug s t) : Live t := by
  have hsilent : s.Silent → ∀ i c, s.client.calls i = some c → ∃ r, c.pc = .done r := by
    rintro ⟨-, hclient⟩ i c hi
    rw [hclient] at hi
    cases hi
  have htalk := hinv.talk
  cases hst with
  | hello hphase => exact h.congr rfl rfl (List.subset_append_left _ _) h.left
  | helloFails e hphase =>
    rw [hphase] at htalk
    exact h.congr rfl rfl (List.Subset.refl _) fun _ => hsilent htalk.2.2.1
  | welcome hphase =>
    rw [hphase] at htalk
    exact h.congr rfl rfl (List.Subset.refl _) fun _ => hsilent htalk.2.2.1
  | call hphase hopen hclean hclient hquiet =>
    refine ⟨h.owned.step hclient, fun i c hi hpc => ?_, fun hclosed => ?_⟩
    · obtain ⟨d, hd, hop, hpd⟩ := hquiet.reading hclient hi hpc
      rw [← hop]
      exact h.asked i d hd hpd
    · rw [show s.upClosed = true from hclosed] at hopen
      cases hopen
  | @write info i c frame hphase hopen hi hpc henc =>
    refine ⟨h.owned.step (Step.wrote hi hpc henc), fun j d hj hpd => ?_, fun hclosed => ?_⟩
    · have hset : (s.client.wrote i c).calls j = some d := hj
      show _ ∨ _ ∈ s.sent ++ [c.op.message]
      have other : ∀ {c' : Call}, (s.client.setCall i c').calls j = some d →
          (d = c' → d.op.isInference = true ∨ ClientMessage.shutdown ∈ s.sent ++ [c.op.message]) →
          d.op.isInference = true ∨ .shutdown ∈ s.sent ++ [c.op.message] := by
        intro c' hset hnew
        rcases State.setCall_cases hset with ⟨-, hsame⟩ | ⟨-, hsame⟩
        · exact hnew hsame
        · exact (h.asked j d hsame hpd).imp_right fun hmem => List.mem_append_left _ hmem
      rw [State.wrote] at hset
      split at hset
      · next req hop => exact other hset fun hd => .inl (by rw [hd, hop]; rfl)
      · next req hop => exact other hset fun hd => .inl (by rw [hd, hop]; rfl)
      · next hop => exact other hset fun _ => .inr (by simp [hop, Op.message])
      · refine other hset fun hd => ?_
        rw [hd] at hpd
        cases hpd
    · rw [show s.upClosed = true from hclosed] at hopen
      cases hopen
  | drop hphase hdone => exact h.congr rfl rfl (List.Subset.refl _) fun _ => hdone
  | serverReads | serverRuns | serverWrites | serverFails | serverDrops =>
    exact h.congr rfl rfl (List.Subset.refl _) h.left

lemma live_of_reachable (h : (link cfg clientVersion debug).Reachable s) : Live s := by
  refine h.run_induction ?_ fun s t hs hst hlive => hlive.step (inv_of_reachable hs) hst
  rintro _ rfl
  refine ⟨fun j hj => ?_, fun i c hi => ?_, fun hclosed => ?_⟩
  · cases hj
  · cases hi
  · cases hclosed

omit [ToString BincodeError] in
lemma Live.upClosed_eq_false (h : Live s) {i : ℕ} {c : Call} (hi : s.client.calls i = some c)
    (hpc : ∀ r, c.pc ≠ .done r) : s.upClosed = false := by
  by_contra hclosed
  obtain ⟨r, hr⟩ := h.left (by simpa using hclosed) i c hi
  exact hpc r hr

/-! ### A call that moves -/

section Moves

variable {i : ℕ} {c d : Call}

/-- Call `i` has moved, and if it has failed to write, its message fits no frame. -/
lemma smooth_of_call (hst : Step cfg clientVersion debug s t) (hserver : t.server = s.server)
    (hi : s.client.calls i = some c)
    (hcalls : t.client.calls = Function.update s.client.calls i (some d))
    (hrequest : c.pc = .holding → ∀ r, d.pc = .done (.error r) →
      ∃ e, clientFrame c.op.message = .error e)
    (hpoisoned : t.client.poisoned = s.client.poisoned) : Smooth cfg clientVersion debug s t where
  step := hst
  read _ _ := by rw [hserver]
  write h := .inl (by rwa [hserver] at h)
  request j e e' r hj he hj' he' := by
    have hset : (s.client.setCall i d).calls j = some e' := by
      rw [hcalls] at hj'
      exact hj'
    rcases State.setCall_cases hset with ⟨rfl, rfl⟩ | ⟨-, hsame⟩
    · obtain rfl := Option.some.inj (hi.symm.trans hj)
      exact hrequest he r he'
    · rw [Option.some.inj (hj.symm.trans hsame), he'] at he
      cases he
  poisoned := hpoisoned

omit [ToString BincodeError] in
/-- It has not written. -/
lemma quiet_of_call {client client' : Client.State} (hinbound : client'.inbound <:+ client.inbound)
    (hclosed : client'.closed = client.closed) (hi : client.calls i = some c)
    (hcalls : client'.calls = Function.update client.calls i (some d))
    (hd : c.pc = .holding → ∃ e, d.pc = .done (.error e)) : Client.Quiet client client' where
  inbound := hinbound
  closed := hclosed
  holding j e hj he := by
    rw [hcalls]
    by_cases hji : j = i
    · subst hji
      rw [← Option.some.inj (hi.symm.trans hj)] at he
      exact ⟨d, Function.update_self .., .inr (hd he)⟩
    · exact ⟨e, (Function.update_of_ne hji ..).trans hj, .inl he⟩

end Moves

/-! ### A call that reads -/

/-- Call `i` has moved in a smooth run, and nothing else has. -/
structure CallRun (cfg : Server.Config) (clientVersion : UInt32) (debug : ServerMessage → String)
    (s t : State) (i : ℕ) (c : Call) : Prop where
  steps : Relation.ReflTransGen (Smooth cfg clientVersion debug) s t
  server : t.server = s.server
  calls : t.client.calls = Function.update s.client.calls i (some c)
  closed : t.client.closed = s.client.closed
  phase : t.phase = s.phase
  upClosed : t.upClosed = s.upClosed

namespace CallRun

variable {u : State} {i : ℕ} {c d : Call}

lemma call (h : CallRun cfg clientVersion debug s t i c) : t.client.calls i = some c := by
  rw [h.calls]
  exact Function.update_self ..

lemma trans (h : CallRun cfg clientVersion debug s t i c)
    (h' : CallRun cfg clientVersion debug t u i d) : CallRun cfg clientVersion debug s u i d where
  steps := h.steps.trans h'.steps
  server := h'.server.trans h.server
  calls := by rw [h'.calls, h.calls, Function.update_idem]
  closed := h'.closed.trans h.closed
  phase := h'.phase.trans h.phase
  upClosed := h'.upClosed.trans h.upClosed

/-- A call that does not write. -/
lemma single {info : ServerInfo} (hphase : s.phase = .connected info) (hopen : s.upClosed = false)
    {l : Client.Label} {client : Client.State} (hclean : l.Clean)
    (hst : Client.Step s.client l client) (hi : s.client.calls i = some c) (hpc : c.pc ≠ .holding)
    (hinbound : client.inbound <:+ s.client.inbound) (hclosed : client.closed = s.client.closed)
    (hcalls : client.calls = Function.update s.client.calls i (some d))
    (hpoisoned : client.poisoned = s.client.poisoned) :
    CallRun cfg clientVersion debug s { s with client := client } i d := by
  have hquiet : Client.Quiet s.client client :=
    quiet_of_call hinbound hclosed hi hcalls fun h => absurd h hpc
  refine ⟨.single ?_, rfl, hcalls, hclosed, rfl, rfl⟩
  exact smooth_of_call (.call hphase hopen hclean hst hquiet) rfl hi hcalls
    (fun h => absurd h hpc) hpoisoned

end CallRun

/-- What a call has become when it has read `result`. -/
inductive Read (c : Call) (result : Except ClientError (Option ServerMessage)) : Call → Prop where
  | goOn (h : c.op.handle result = .goOn) : Read c result c
  | event {ev : StreamEvent} (h : c.op.handle result = .event ev) :
      Read c result { c with received := c.received ++ [ev] }
  | finish {r : Result} (h : c.op.handle result = .finish r) :
      Read c result { c with pc := .done r }

/-- A call reads what has arrived. -/
lemma exists_turn (cfg : Server.Config) (clientVersion : UInt32)
    (debug : ServerMessage → String) {info : ServerInfo} (hphase : s.phase = .connected info)
    (hopen : s.upClosed = false) {i : ℕ} {c : Call} (hi : s.client.calls i = some c)
    (hpc : c.pc = .reading) {bs : List UInt8} {eof : Bool} {src' : Source IoError}
    {result : Except ClientError (Option ServerMessage)}
    (hmeets : Client.Meets s.client (Source.arrived bs eof) [])
    (hread : readServerFrame (Source.arrived bs eof) = some (result, src'))
    (hsuffix : src'.bytes <:+ bs) :
    ∃ t d, CallRun cfg clientVersion debug s t i d ∧ t.client.inbound = src'.bytes ∧
      Read c result d := by
  have hclean : Client.Label.Clean (.read (Source.arrived bs eof)) :=
    ⟨fun e he => Source.noFault_arrived bs eof e (List.mem_of_mem_head? he),
      fun e he => absurd he (Source.noFault_arrived bs eof e)⟩
  have hinbound : src'.bytes ++ [] <:+ s.client.inbound := by
    rw [hmeets.bytes, Source.bytes_arrived, List.append_nil, List.append_nil]
    exact hsuffix
  have hpc' : c.pc ≠ .holding := by rw [hpc]; simp
  cases hhandle : c.op.handle result with
  | goOn =>
    have hst := Client.Step.readOn hi hpc hmeets hread hhandle
    refine ⟨_, c, .single hphase hopen hclean hst hi hpc' hinbound rfl ?_ rfl, List.append_nil _,
      .goOn hhandle⟩
    exact (Function.update_eq_self_iff.mpr hi.symm).symm
  | event ev =>
    have hst := Client.Step.readEvent hi hpc hmeets hread hhandle
    exact ⟨_, _, .single hphase hopen hclean hst hi hpc' hinbound rfl rfl rfl, List.append_nil _,
      .event hhandle⟩
  | finish r =>
    have hst := Client.Step.readFinish hi hpc hmeets hread hhandle
    exact ⟨_, _, .single hphase hopen hclean hst hi hpc' hinbound rfl rfl rfl, List.append_nil _,
      .finish hhandle⟩

/-- What a read finds where the server has hung up. -/
lemma exists_hungUp {bs : List UInt8} (h : serverNext bs = .ok none) :
    ∃ result src', readServerFrame (Source.arrived bs true) = some (result, src') ∧
      src'.bytes <:+ bs ∧ (result = .ok none ∨ ∃ context, result = .error (.io context)) := by
  have hplain : (Source.arrived bs true : Source IoError).Plain :=
    ⟨Source.eof_arrived bs true, Source.noFault_arrived bs true⟩
  have hclean : CleanRead (Source.arrived bs true) :=
    ⟨fun e he => Source.noFault_arrived bs true e (List.mem_of_mem_head? he),
      fun e he => absurd he (Source.noFault_arrived bs true e)⟩
  have hone : OneFrame _ _ _ (readServerFrame (Source.arrived bs true)) :=
    oneFrame_readFrame hplain
  rcases hread : readServerFrame (Source.arrived bs true) with _ | ⟨result, src'⟩
  · rw [hread] at hone
    cases hone
  · refine ⟨result, src', rfl, ?_⟩
    have hreads := readServerFrame_readsAs hclean hread
    cases hreads with
    | eof => exact ⟨List.nil_suffix, .inl rfl⟩
    | frame hnext =>
      rw [Source.bytes_arrived, h] at hnext
      cases hnext
    | refused hnext =>
      rw [Source.bytes_arrived, h] at hnext
      cases hnext
    | truncated =>
      obtain ⟨context, rfl⟩ := readFrame_error hread
      exact ⟨List.nil_suffix, .inr ⟨context, rfl⟩⟩

/-- How a call that has written its message may end. -/
def Ending (c : Call) (closed : Bool) (r : Result) : Prop :=
  c.op.isInference = true → r.IsReply ∨ (∃ e, r = .error e) ∧ closed = true

/-- A call reads to its end, where its answer is on the way or the server has hung up. -/
lemma exists_done (cfg : Server.Config) (clientVersion : UInt32)
    (debug : ServerMessage → String) {info : ServerInfo} {msgs : List ServerMessage} {i : ℕ}
    {c : Call} (hphase : s.phase = .connected info) (hopen : s.upClosed = false)
    (hi : s.client.calls i = some c) (hpc : c.pc = .reading)
    (hmsgs : s.client.Inbound msgs) (hend : s.client.closed = true ∨
      c.op.isInference = true ∧ ∃ msg ∈ msgs, msg.isTerminal = true) :
    ∃ t d r, CallRun cfg clientVersion debug s t i d ∧ d.op = c.op ∧ d.pc = .done r ∧
      Ending c s.client.closed r := by
  induction msgs generalizing s c with
  | nil =>
    obtain hclosed | ⟨-, msg, hmsg, -⟩ := hend
    · have hmeets : Client.Meets s.client (Source.arrived s.client.inbound true) [] :=
        ⟨by simp, fun _ => ⟨hclosed, rfl⟩⟩
      obtain ⟨result, src', hread, hsuffix, hresult⟩ := exists_hungUp hmsgs.next_nil
      obtain ⟨r, hr⟩ := Op.finish_of_hungUp c.op hresult
      obtain ⟨t, d, hrun, -, hd⟩ :=
        exists_turn cfg clientVersion debug hphase hopen hi hpc hmeets hread hsuffix
      cases hd with
      | goOn h | event h =>
        rw [hr] at h
        cases h
      | @finish r' h =>
        refine ⟨t, _, r', hrun, rfl, rfl, fun hop => .inr ⟨?_, hclosed⟩⟩
        obtain ⟨e, he, -⟩ := Op.handle_hungUp hop hresult
        rw [he] at h
        cases h
        exact ⟨e, rfl⟩
    · cases hmsg
  | cons msg msgs ih =>
    obtain ⟨n, hnext, hrest⟩ := hmsgs.next_cons
    have hmeets : Client.Meets s.client (Source.arrived s.client.inbound false) [] :=
      ⟨by simp, fun heof => by simp at heof⟩
    have hread : readServerFrame (Source.arrived s.client.inbound false) =
        some (.ok (some msg), Source.arrived (s.client.inbound.drop n) false) :=
      Client.readFrame_arrived hnext false
    have hsuffix : (Source.arrived (s.client.inbound.drop n) false : Source IoError).bytes <:+
        s.client.inbound := by
      rw [Source.bytes_arrived]
      exact List.drop_suffix _ _
    obtain ⟨t, d, hrun, hinbound, hd⟩ :=
      exists_turn cfg clientVersion debug hphase hopen hi hpc hmeets hread hsuffix
    rw [Source.bytes_arrived] at hinbound
    have hmsgs' : t.client.Inbound msgs := by
      rw [State.Inbound, hinbound, hrun.closed]
      exact hrest
    have hgoes : (∀ r, c.op.handle (.ok (some msg)) ≠ .finish r) → t.client.closed = true ∨
        c.op.isInference = true ∧ ∃ msg ∈ msgs, msg.isTerminal = true := by
      intro hnot
      rw [hrun.closed]
      obtain hclosed | ⟨hop, msg', hmem, hterm⟩ := hend
      · exact .inl hclosed
      refine .inr ⟨hop, msg', (List.mem_cons.mp hmem).resolve_left ?_, hterm⟩
      rintro rfl
      obtain ⟨r, hr⟩ := Op.finish_of_isTerminal hop hterm
      exact hnot r hr
    have hgoOn : d.op = c.op → d.pc = .reading → (∀ r, c.op.handle (.ok (some msg)) ≠ .finish r) →
        ∃ t d r, CallRun cfg clientVersion debug s t i d ∧ d.op = c.op ∧ d.pc = .done r ∧
          Ending c s.client.closed r := by
      intro hop hpd hnot
      have hend' := hgoes hnot
      rw [← hop] at hend'
      obtain ⟨u, d', r, hrun', hop', hr, hending⟩ := ih (hrun.phase.trans hphase)
        (hrun.upClosed.trans hopen) hrun.call hpd hmsgs' hend'
      refine ⟨u, d', r, hrun.trans hrun', hop'.trans hop, hr, ?_⟩
      rwa [Ending, ← hop, ← hrun.closed]
    cases hd with
    | goOn h => exact hgoOn rfl hpc fun r hr => by rw [h] at hr; cases hr
    | event h => exact hgoOn rfl hpc fun r hr => by rw [h] at hr; cases hr
    | @finish r h =>
      exact ⟨t, { c with pc := .done r }, r, hrun, rfl, rfl, fun hop =>
        .inl (Op.isReply_of_finish hop h)⟩

/-! ### The results -/

/-- A call runs only while the client is connected. -/
lemma Inv.connected (h : Inv cfg clientVersion s) {i : ℕ} {c : Call}
    (hi : s.client.calls i = some c) :
    ∃ info, s.phase = .connected info ∧ clientVersion = PROTOCOL_VERSION ∧
      s.sent.head? = some (.hello clientVersion) ∧ Session s := by
  have htalk := h.talk
  have hsilent : ¬ s.Silent := by
    rintro ⟨-, hclient⟩
    rw [hclient] at hi
    cases hi
  cases hphase : s.phase with
  | start =>
    rw [hphase] at htalk
    exact absurd htalk.2.2.1 hsilent
  | greeting =>
    rw [hphase] at htalk
    exact absurd htalk.2.2.1 hsilent
  | failed e =>
    rw [hphase] at htalk
    exact absurd htalk.2.1 hsilent
  | connected info =>
    rw [hphase] at htalk
    exact ⟨info, rfl, htalk.1, htalk.2.2⟩

/-- The handler serves a call that reads, or hangs up. -/
lemma exists_served (h : (link cfg clientVersion debug).Reachable s) {i : ℕ} {c : Call}
    (hi : s.client.calls i = some c) (hpc : c.pc = .reading) :
    ∃ t msgs, ServerRun cfg clientVersion debug s t ∧ t.client.Inbound msgs ∧
      (t.client.closed = true ∨ c.op.isInference = true ∧ ∃ msg ∈ msgs, msg.isTerminal = true) := by
  have inbound : ∀ {t}, (link cfg clientVersion debug).Reachable t →
      t.client.calls i = some c → ∃ msgs, t.client.Inbound msgs := by
    intro t ht hit
    obtain ⟨info, -, -, -, hsession⟩ := (inv_of_reachable ht).connected hit
    cases hop : c.op.isInference with
    | true =>
      obtain ⟨msgs, hmsgs, -⟩ := hsession.client.stream.awaiting i c hit hpc hop
      exact ⟨msgs, hmsgs⟩
    | false =>
      obtain ⟨msgs, hmsgs, -⟩ := hsession.client.quiet hit (.inr ⟨hpc, hop⟩)
      exact ⟨msgs, hmsgs⟩
  obtain ⟨-, -, -, hhead, -⟩ := (inv_of_reachable h).connected hi
  have hsome : s.sent ≠ [] := by
    rintro hnil
    rw [hnil] at hhead
    cases hhead
  obtain ⟨t, ht, ⟨hnext, hreceived⟩ | hended⟩ := exists_settled h hsome
  · have hreachable := ht.reachable h
    have hinv := inv_of_reachable hreachable
    have hit : t.client.calls i = some c := by rw [ht.calls, hi]
    obtain ⟨-, -, -, -, hsession⟩ := hinv.connected hit
    rcases (live_of_reachable hreachable).asked i c hit hpc with hop | hshutdown
    · obtain ⟨msgs, hmsgs, hawaiting⟩ := hsession.client.stream.awaiting i c hit hpc hop
      refine ⟨t, msgs, ht, hmsgs, ?_⟩
      cases hawaiting with
      | owed _ _ _ howed =>
        refine .inl (howed.resolve_right fun hone => ?_)
        rw [unanswered_eq_nil hsession hinv.server hnext hreceived] at hone
        cases hone
      | @answered pre oob msg _ _ hterm => exact .inr ⟨hop, msg, by simp, hterm⟩
    · -- behind a `Shutdown`, nothing is read
      exfalso
      have hat := (Server.inv_of_reachable hinv.server).at_pc
      rw [hnext] at hat
      obtain ⟨-, rest, hgoes, hin⟩ := hat
      rw [← hreceived, hin.received] at hshutdown
      exact hgoes.shutdown_notMem ((List.mem_cons.mp hshutdown).resolve_left nofun)
  · cases hclosed : t.client.closed with
    | true =>
      obtain ⟨msgs, hmsgs⟩ := inbound (ht.reachable h) (by rw [ht.calls, hi])
      exact ⟨t, msgs, ht, hmsgs, .inl hclosed⟩
    | false =>
      have hdrop := ht.trans (.single (.serverDrops hclosed hended) (fun _ _ => rfl) .inl rfl rfl
        rfl
        rfl)
      obtain ⟨msgs, hmsgs⟩ := inbound (hdrop.reachable h) (by rw [hdrop.calls, hi])
      exact ⟨_, msgs, hdrop, hmsgs, .inl rfl⟩

/-- A call that has written its message returns, and an inference with an answer of the slot,
unless something has gone wrong. -/
lemma exists_returned (h : (link cfg clientVersion debug).Reachable s) {i : ℕ} {c : Call}
    (hi : s.client.calls i = some c) (hpc : c.pc = .reading) :
    ∃ t d r, Relation.ReflTransGen (Smooth cfg clientVersion debug) s t ∧
      t.client.calls = Function.update s.client.calls i (some d) ∧ d.pc = .done r ∧
      d.op = c.op ∧
      (c.op.isInference = true → r.IsReply ∨ (∃ e, r = .error e) ∧ Cause t.server) := by
  obtain ⟨t, msgs, ht, hmsgs, hend⟩ := exists_served h hi hpc
  have hreachable := ht.reachable h
  have hinv := inv_of_reachable hreachable
  have hit : t.client.calls i = some c := by rw [ht.calls, hi]
  obtain ⟨info, hphase, hv, -, -⟩ := hinv.connected hit
  have hopen := (live_of_reachable hreachable).upClosed_eq_false hit (by simp [hpc])
  obtain ⟨u, d, r, hu, hop, hr, hending⟩ :=
    exists_done cfg clientVersion debug hphase hopen hit hpc hmsgs hend
  refine ⟨u, d, r, ht.steps.trans hu.steps, by rw [hu.calls, ht.calls], hr, hop, fun hinf => ?_⟩
  refine (hending hinf).imp_right fun ⟨he, hclosed⟩ => ⟨he, ?_⟩
  subst hv
  rw [hu.server]
  exact ((ends_of_reachable hreachable).ended (hinv.closed hclosed)).resolve_left (by simp [hopen])

/-- A smooth run in which call `i` returns, and no other call moves. -/
def Returns (cfg : Server.Config) (clientVersion : UInt32) (debug : ServerMessage → String)
    (s : State) (i : ℕ) : Prop :=
  ∃ t d r, Relation.ReflTransGen (Smooth cfg clientVersion debug) s t ∧
    t.client.calls = Function.update s.client.calls i (some d) ∧ d.pc = .done r

namespace Returns

variable {i : ℕ} {c d : Call} {info : ServerInfo}

lemma of_smooth (hst : Smooth cfg clientVersion debug s t)
    (hcalls : t.client.calls = Function.update s.client.calls i (some d))
    (h : Returns cfg clientVersion debug t i) : Returns cfg clientVersion debug s i := by
  obtain ⟨u, d', r, hu, hcalls', hr⟩ := h
  exact ⟨u, d', r, .head hst hu, by rw [hcalls', hcalls, Function.update_idem], hr⟩

lemma of_run (hrun : CallRun cfg clientVersion debug s t i d)
    (h : Returns cfg clientVersion debug t i) : Returns cfg clientVersion debug s i := by
  obtain ⟨u, d', r, hu, hcalls', hr⟩ := h
  exact ⟨u, d', r, hrun.steps.trans hu, by rw [hcalls', hrun.calls, Function.update_idem], hr⟩

/-- A call that can write returns. -/
lemma of_holding (h : (link cfg clientVersion debug).Reachable s)
    (hphase : s.phase = .connected info)
    (hopen : s.upClosed = false) (hi : s.client.calls i = some c) (hpc : c.pc = .holding) :
    Returns cfg clientVersion debug s i := by
  cases henc : clientFrame c.op.message with
  | error e =>
    have hst := Client.Step.encodeFails hi hpc henc
    set r : Result := .error (.io s!"encode: {e.message}")
    have hcalls : (s.client.release i c r).calls =
        Function.update s.client.calls i (some { c with pc := .done r }) := rfl
    have hquiet : Client.Quiet s.client (s.client.release i c r) :=
      quiet_of_call List.suffix_rfl rfl hi hcalls fun _ => ⟨_, rfl⟩
    have hclean : Client.Label.Clean .tau := trivial
    have hfails : Step cfg clientVersion debug s _ := .call hphase hopen hclean hst hquiet
    have hsmooth : Smooth cfg clientVersion debug s _ :=
      smooth_of_call hfails rfl hi hcalls (fun _ _ _ => ⟨e, henc⟩) rfl
    exact ⟨_, _, r, .single hsmooth, hcalls, rfl⟩
  | ok frame =>
    have hwrites : Step cfg clientVersion debug s _ := .write hphase hopen hi hpc henc
    obtain ⟨d, hcalls, -, hd⟩ := State.wrote_calls (s := s.client) (i := i) (c := c)
    have hpoisoned : (s.client.wrote i c).poisoned = s.client.poisoned := by
      rw [State.wrote]
      split <;> rfl
    have hfailed : ∀ r, d.pc ≠ .done (.error r) := by
      intro r hr
      rw [hr] at hd
      rcases hd with hd | hd <;> cases hd
    have hsmooth : Smooth cfg clientVersion debug s _ :=
      smooth_of_call hwrites rfl hi hcalls (fun _ r hr => absurd hr (hfailed r)) hpoisoned
    refine of_smooth hsmooth hcalls ?_
    rcases hd with hd | hd
    · have hid : (s.client.wrote i c).calls i = some d := by
        rw [hcalls]
        exact Function.update_self ..
      obtain ⟨u, d', r, hu, hcalls', hr, -⟩ := exists_returned (h.step hwrites) hid hd
      exact ⟨u, d', r, hu, hcalls', hr⟩
    · refine ⟨_, d, .unit, .refl, ?_, hd⟩
      show (s.client.wrote i c).calls = Function.update (s.client.wrote i c).calls i (some d)
      rw [hcalls]
      exact (Function.update_idem ..).symm

/-- A call that finds the mutex free returns. -/
lemma of_free (h : (link cfg clientVersion debug).Reachable s) (hphase : s.phase = .connected info)
    (hopen : s.upClosed = false) (hi : s.client.calls i = some c) (hpc : c.pc = .entered)
    (hfree : s.client.lock = none) : Returns cfg clientVersion debug s i := by
  have hpc' : c.pc ≠ .holding := by simp [hpc]
  have hclean : Client.Label.Clean .tau := trivial
  cases hpoisoned : s.client.poisoned with
  | true =>
    have hst := Client.Step.lockPoisoned hi hpc hfree hpoisoned
    have hrun : CallRun cfg clientVersion debug s _ i _ :=
      .single hphase hopen hclean hst hi hpc' List.suffix_rfl rfl rfl rfl
    exact ⟨_, _, _, hrun.steps, hrun.calls, rfl⟩
  | false =>
    have hst := Client.Step.lock hi hpc hfree hpoisoned
    have hrun : CallRun cfg clientVersion debug s _ i { c with pc := .holding } :=
      .single hphase hopen hclean hst hi hpc' List.suffix_rfl rfl rfl rfl
    have hreachable := h.steps (steps_of_smooth hrun.steps)
    exact of_run hrun (of_holding hreachable hphase hopen hrun.call rfl)

end Returns

/-- The call that holds the mutex can return, and then the mutex is free. -/
lemma exists_free (h : (link cfg clientVersion debug).Reachable s) {i : ℕ} {c : Call}
    (hi : s.client.calls i = some c) (hpc : c.pc = .entered) :
    ∃ t, Relation.ReflTransGen (Smooth cfg clientVersion debug) s t ∧
      t.client.calls i = some c ∧ t.client.lock = none := by
  obtain ⟨info, hphase, -, -, hsession⟩ := (inv_of_reachable h).connected hi
  have hlive := live_of_reachable h
  cases hlock : s.client.lock with
  | none => exact ⟨s, .refl, hi, hlock⟩
  | some j =>
    obtain ⟨d, hj, hpd⟩ := hlive.owned j hlock
    have hreturns : Returns cfg clientVersion debug s j := by
      rcases hpd with hpd | hpd
      · exact .of_holding h hphase (hlive.upClosed_eq_false hj (by simp [hpd])) hj hpd
      · obtain ⟨t, d, r, ht, hcalls, hr, -⟩ := exists_returned h hj hpd
        exact ⟨t, d, r, ht, hcalls, hr⟩
    obtain ⟨t, d', r, ht, hcalls, hr⟩ := hreturns
    have hji : i ≠ j := by
      rintro rfl
      rw [Option.some.inj (hj.symm.trans hi), hpc] at hpd
      rcases hpd with hpd | hpd <;> cases hpd
    refine ⟨t, ht, by rw [hcalls]; exact (Function.update_of_ne hji ..).trans hi, ?_⟩
    cases hfree : t.client.lock with
    | none => rfl
    | some k =>
      -- no other call held the mutex
      exfalso
      obtain ⟨e, hk, hpe⟩ := (live_of_reachable (h.steps (steps_of_smooth ht))).owned k hfree
      rw [hcalls] at hk
      rcases State.setCall_cases (s := s.client) hk with ⟨-, rfl⟩ | ⟨hkj, hsame⟩
      · rw [hr] at hpe
        rcases hpe with hpe | hpe <;> cases hpe
      · have hholder := hsession.client.locking.holder k e hsame hpe
        rw [hlock] at hholder
        exact hkj (Option.some.inj hholder).symm

/-- No call is stuck: from every state that a client and a handler get into while the calls read and
write cleanly, there is a run in which nothing fails and in which a given call returns. -/
theorem returns_of_reachable (h : (link cfg clientVersion debug).Reachable s) {i : ℕ} {c : Call}
    (hi : s.client.calls i = some c) :
    ∃ t d r, Relation.ReflTransGen (Smooth cfg clientVersion debug) s t ∧
      t.client.calls i = some d ∧ d.pc = .done r := by
  obtain ⟨info, hphase, -, -, hsession⟩ := (inv_of_reachable h).connected hi
  have hlive := live_of_reachable h
  cases hpc : c.pc with
  | done r => exact ⟨s, c, r, .refl, hi, hpc⟩
  | reading =>
    obtain ⟨t, d, r, ht, hcalls, hr, -⟩ := exists_returned h hi hpc
    exact ⟨t, d, r, ht, by rw [hcalls]; exact Function.update_self .., hr⟩
  | holding =>
    have hopen := hlive.upClosed_eq_false hi (by simp [hpc])
    obtain ⟨t, d, r, ht, hcalls, hr⟩ := Returns.of_holding h hphase hopen hi hpc
    exact ⟨t, d, r, ht, by rw [hcalls]; exact Function.update_self .., hr⟩
  | entered =>
    have hopen := hlive.upClosed_eq_false hi (by simp [hpc])
    -- first the call that holds the mutex returns
    obtain ⟨t, ht, hit, hfree⟩ := exists_free h hi hpc
    have hreachable := h.steps (steps_of_smooth ht)
    obtain ⟨info', hphase', -⟩ := (inv_of_reachable hreachable).connected hit
    have hopen' := (live_of_reachable hreachable).upClosed_eq_false hit (by simp [hpc])
    obtain ⟨u, d, r, hu, hcalls, hr⟩ := Returns.of_free hreachable hphase' hopen' hit hpc hfree
    exact ⟨u, d, r, ht.trans hu, by rw [hcalls]; exact Function.update_self .., hr⟩

omit [ToString BincodeError] in
/-- A second call waits for the mutex while the first one reads. -/
theorem returns_of_reachable_demo :
    ∃ s t d r, (@link demoText demoConfig PROTOCOL_VERSION fun _ => "").Reachable s ∧
      s.client.lock = some 0 ∧ s.client.calls 1 = some ⟨.shutdown, .entered, []⟩ ∧
      Relation.ReflTransGen (@Smooth demoText demoConfig PROTOCOL_VERSION fun _ => "") s t ∧
      t.client.calls 1 = some d ∧ d.pc = .done r := by
  let _ := demoText
  have hst : Client.Step demoReading .tau (demoReading.setCall 1 ⟨.shutdown, .entered, []⟩) :=
    .call 1 .shutdown rfl
  have hquiet : Client.Quiet demoReading (demoReading.setCall 1 ⟨.shutdown, .entered, []⟩) := by
    refine ⟨List.suffix_rfl, rfl, fun j d hj hd => ⟨d, ?_, .inl hd⟩⟩
    have hj1 : j ≠ 1 := by
      rintro rfl
      cases hj
    exact (Function.update_of_ne hj1 ..).trans hj
  have hclean : Client.Label.Clean .tau := trivial
  have hreachable := demo_reading.step (.call rfl rfl hclean hst hquiet)
  have hcall : (demoReading.setCall 1 ⟨.shutdown, .entered, []⟩).calls 1 =
      some ⟨.shutdown, .entered, []⟩ := rfl
  obtain ⟨t, d, r, h⟩ := returns_of_reachable hreachable hcall
  exact ⟨_, t, d, r, hreachable, rfl, hcall, h⟩

end Link

end ModelApi
