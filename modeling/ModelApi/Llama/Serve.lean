import ModelApi.Llama.Concurrent
import ModelApi.Server.Trace

/-!
# A server with any number of connections

`serve` hands every connection that it accepts to a `handle_client` of its own, and all of them
share one slot. Each connection is a run of the handler, all calls together are a run of the slot,
and each request is answered on its connection with all of its events and its own result.
-/

namespace ModelApi.Llama

open Lib Gemma Server

variable {Token N : Type}

/-! ### What a call of the slot keeps -/

namespace LlamaSlot

variable {slot : LlamaSlot Token N} {s t : slot.State} {i : ℕ} {c : Running}

/-- A call goes on with the same request, behind the events that it has emitted. -/
structure Continues (c d : Running) : Prop where
  req : d.req = c.req
  sink : d.sink = c.sink
  events : c.events <+: d.events
  returned : ∀ result, c.pc = .returned result → d = c

lemma Continues.refl (c : Running) : Continues c c := ⟨rfl, rfl, List.prefix_rfl, fun _ _ => rfl⟩

lemma continues_set {d : Running} (hi : s.runs i = some c) (hcd : Continues c d) {j : ℕ}
    {e : Running}
    (hj : s.runs j = some e) : ∃ e', (s.set i d).runs j = some e' ∧ Continues e e' := by
  by_cases hji : j = i
  · subst hji
    rw [hi] at hj
    cases hj
    exact ⟨d, runs_set .., hcd⟩
  · exact ⟨e, (Function.update_of_ne hji ..).trans hj, .refl e⟩

lemma runs_set_none {d : Running} (hi : s.runs i = some c) (j : ℕ) (hj : s.runs j = none) :
    (s.set i d).runs j = none := by
  have hne : j ≠ i := by
    rintro rfl
    rw [hi] at hj
    cases hj
  exact (Function.update_of_ne hne ..).trans hj

lemma continues_of_step (hst : slot.Step s t) (hi : s.runs i = some c) :
    ∃ d, t.runs i = some d ∧ Continues c d := by
  have hlive {c : Running} {pc : Pc} (hpc : c.pc = pc) (hne : ∀ result, pc ≠ .returned result)
      {d : Running} : ∀ result, c.pc = .returned result → d = c := fun result h =>
    absurd (hpc.symm.trans h) (hne result)
  cases hst with
  | enter j req sink hj =>
    have hne : i ≠ j := by
      rintro rfl
      rw [hj] at hi
      cases hi
    exact ⟨c, (Function.update_of_ne hne ..).trans hi, .refl c⟩
  | work => exact ⟨c, hi, .refl c⟩
  | refuse hj hpc | fail hj hpc =>
    refine continues_set hj ?_ hi
    exact ⟨rfl, rfl, List.prefix_rfl, hlive hpc (by simp)⟩
  | start hj hpc | finish hj hpc =>
    refine continues_set hj ?_ hi
    exact ⟨rfl, rfl, List.prefix_append .., hlive hpc (by simp)⟩

lemma length_started_le (sink : Bool) : (started sink).length ≤ 2 := by
  cases sink <;> decide

lemma length_finished_le (sink : Bool) (text : String) : (finished sink text).length ≤ 2 := by
  cases sink <;> simp [finished]

/-- A call emits at most four events, and none without a sink. -/
lemma Linked.events_le {call : Option (Section.Call slot.Job (Except String String))}
    (h : slot.Linked (some c) call) : c.events.length ≤ 4 ∧ (c.sink = false → c.events = []) := by
  cases h with
  | entered | refused => exact ⟨Nat.zero_le 4, fun _ => rfl⟩
  | unblock call =>
    refine ⟨(length_started_le _).trans (by decide), fun hsink => ?_⟩
    simp only at hsink
    rw [hsink]
    rfl
  | answered job b =>
    cases b with
    | error e =>
      refine ⟨(length_started_le _).trans (by decide), fun hsink => ?_⟩
      simp only at hsink
      rw [hsink]
      rfl
    | ok text =>
      simp only [answer, List.length_append]
      have h₁ := length_started_le job.sink
      have h₂ := length_finished_le job.sink text
      refine ⟨by omega, fun hsink => ?_⟩
      rw [hsink]
      rfl

end LlamaSlot

/-! ### The process -/

namespace LlamaSlot

variable (slot : LlamaSlot Token N) (modelName : String) (debug : ClientMessage → String)

/-- What the handler of connection `c` is started with. -/
def handler (modelName : String) (debug : ClientMessage → String) (c : ℕ) : Server.Config :=
  ⟨c, modelName, none, debug⟩

/-- The process: its connections, the counter of their ids, and the slot. -/
structure Process (slot : LlamaSlot Token N) where
  conns : ℕ → Option Server.State
  counter : ℕ
  slot : slot.State

/-- The number of the slot's call for request `k` of connection `c`. -/
def callId (c k : ℕ) : ℕ := Nat.pair c k

/-- Whether the handler calls `run_stream`. -/
def wantsSink (req : InferenceRequest) : Bool := req.stream || req.progress

/-- Connection `c` is now at `conn`. -/
def Process.set (p : slot.Process) (c : ℕ) (conn : Server.State) : slot.Process :=
  { p with conns := Function.update p.conns c (some conn) }

inductive Process.Step : slot.Process → slot.Process → Prop where
  | accept {p : slot.Process} :
      Step p { p.set slot p.counter Server.State.init with counter := p.counter + 1 }
  /-- a handler moves without its slot -/
  | handler {p : slot.Process} {c : ℕ} {conn conn' : Server.State} (hc : p.conns c = some conn)
      (hst : Server.Step (handler modelName debug c) conn conn')
      (hcalls : conn'.calls = conn.calls) : Step p (p.set slot c conn')
  /-- a handler reads a request, and calls the slot -/
  | call {p : slot.Process} {c : ℕ} {conn : Server.State} (hc : p.conns c = some conn)
      (hpc : conn.pc = .readNext) (req : InferenceRequest) :
      Step p { p.set slot c { conn with
          pc := afterNext (.message (.inference req))
          received := conn.received ++ [.inference req]
          calls := ⟨req, [], none⟩ :: conn.calls } with
        slot := p.slot.set (callId c conn.calls.length) ⟨req, wantsSink req, [], .entered⟩ }
  /-- a call of the slot moves -/
  | slot {p : slot.Process} {t : slot.State} (hst : slot.Step p.slot t)
      (hold : ∀ i, p.slot.runs i = none → t.runs i = none) : Step p { p with slot := t }
  /-- the next event of a call gets into the channel of its connection -/
  | emit {p : slot.Process} {c : ℕ} {conn : Server.State} {ch : Channel} {d : Drain}
      {call : SlotCall} {cs : List SlotCall} {run : Running} {ev : SlotEvent}
      (hc : p.conns c = some conn) (hpc : conn.pc = .stream ch d) (hcalls : conn.calls = call :: cs)
      (hresult : call.result = none) (hrun : p.slot.runs (callId c cs.length) = some run)
      (hev : run.events[call.emitted.length]? = some ev) :
      Step p (p.set slot c { conn with
        pc := .stream (ch.trySend ev) d
        calls := { call with emitted := call.emitted ++ [(ev, ch.queue.length)] } :: cs })
  /-- `run_stream` returns -/
  | finish {p : slot.Process} {c : ℕ} {conn : Server.State} {ch : Channel} {d : Drain}
      {call : SlotCall} {cs : List SlotCall} {run : Running} {r : Except String InferenceResponse}
      (hc : p.conns c = some conn) (hpc : conn.pc = .stream ch d) (hcalls : conn.calls = call :: cs)
      (hresult : call.result = none) (hrun : p.slot.runs (callId c cs.length) = some run)
      (hreturned : run.pc = .returned (.ok r)) (hall : call.emitted.length = run.events.length) :
      Step p (p.set slot c { conn with
        pc := .stream { ch with sink := false } d
        calls := { call with result := some r } :: cs })
  /-- `run` returns -/
  | runReturns {p : slot.Process} {c : ℕ} {conn : Server.State} {call : SlotCall}
      {cs : List SlotCall} {run : Running} {r : Except String InferenceResponse}
      (hc : p.conns c = some conn) (hpc : conn.pc = .run) (hcalls : conn.calls = call :: cs)
      (hrun : p.slot.runs (callId c cs.length) = some run)
      (hreturned : run.pc = .returned (.ok r)) :
      Step p (p.set slot c { conn with
        pc := .reply (replyOf r), calls := { call with result := some r } :: cs })

/-- `serve`, with the session `s₀` at first. -/
def serveLoop (s₀ : Session Token) : Machine slot.Process where
  init p := p = ⟨fun _ => none, 0, ⟨.start s₀, fun _ => none⟩⟩
  step := Process.Step slot modelName debug

/-! ### Handlers that call `run` -/

/-- A handler waits for `run` only where the request wants no events. -/
lemma not_wantsSink_of_run {cfg : Server.Config} {conn : Server.State}
    (h : (handleClient cfg).Reachable conn) :
    conn.pc = .run → ∀ call ∈ conn.calls.head?, wantsSink call.req = false := by
  refine h.invariant (P := fun conn => conn.pc = .run → ∀ call ∈ conn.calls.head?,
    wantsSink call.req = false) ?_ ?_
  · rintro _ rfl hpc
    cases hpc
  · intro s t hst hs hpc call hcall
    cases hst with
    | first r =>
      exfalso
      cases r with
      | message m =>
        cases m with
        | hello v =>
          simp only [afterFirst] at hpc
          split_ifs at hpc
        | inference | cancel | shutdown => cases hpc
      | eof | error => cases hpc
    | next r =>
      cases r with
      | message m =>
        cases m with
        | inference req =>
          cases hcall
          simp only [afterNext] at hpc
          split_ifs at hpc with hwants
          exact Bool.eq_false_iff.mpr hwants
        | hello | cancel | shutdown => cases hpc
      | eof | error => cases hpc
    | refuse | refuseFails | writeFails | emit | finish | runReturns => cases hpc
    | write hw =>
      exfalso
      generalize s.pc = pc at hw
      cases hw <;> cases hpc
    | drain _ _ hd => cases hd <;> cases hpc

/-! ### The invariant -/

/-- What a call looks like from its connection. -/
structure Carried (call : SlotCall) (run : Running) : Prop where
  req : run.req = call.req
  sink : run.sink = wantsSink call.req
  emitted : call.emitted.map Prod.fst <+: run.events
  fits : ∀ e ∈ call.emitted, e.2 < EVENT_CAPACITY
  result : ∀ r, call.result = some r →
    run.pc = .returned (.ok r) ∧ call.emitted.map Prod.fst = run.events

lemma Carried.continues {call : SlotCall} {run run' : Running} (h : Carried call run)
    (hrun : Continues run run') : Carried call run' where
  req := hrun.req.trans h.req
  sink := hrun.sink.trans h.sink
  emitted := h.emitted.trans hrun.events
  fits := h.fits
  result r hr := by
    obtain ⟨hpc, heq⟩ := h.result r hr
    rw [hrun.returned _ hpc]
    exact ⟨hpc, heq⟩

/-- Every event found room. -/
lemma Carried.accepted {call : SlotCall} {run : Running} (h : Carried call run)
    {r : Except String InferenceResponse} (hr : call.result = some r) :
    call.accepted = run.events := by
  rw [SlotCall.accepted, List.filter_eq_self.mpr fun e he => decide_eq_true (h.fits e he)]
  exact (h.result r hr).2

variable {slot modelName debug}

structure Process.Inv (slot : LlamaSlot Token N) (modelName : String)
    (debug : ClientMessage → String)
    (s₀ : Session Token) (p : slot.Process) : Prop where
  conns : ∀ c conn, p.conns c = some conn →
    (handleClient (handler modelName debug c)).Reachable conn ∧ c < p.counter
  slot : (slot.machine s₀).Reachable p.slot
  carried : ∀ c conn, p.conns c = some conn → ∀ k call, conn.calls.reverse[k]? = some call →
    ∃ run, p.slot.runs (callId c k) = some run ∧ Carried call run
  /-- no call of the slot but those of the connections -/
  owned : ∀ i run, p.slot.runs i = some run →
    ∃ c conn k, i = callId c k ∧ p.conns c = some conn ∧ k < conn.calls.length

lemma callId_inj {c k c' k' : ℕ} (h : callId c k = callId c' k') : c = c' ∧ k = k' :=
  Nat.pair_eq_pair.mp h

/-- The calls in the order of their requests, with the latest one last. -/
lemma getElem?_reverse_cons {call call' : SlotCall} {cs : List SlotCall} {k : ℕ}
    (h : (call :: cs).reverse[k]? = some call') :
    (k = cs.length ∧ call' = call) ∨ cs.reverse[k]? = some call' := by
  rw [List.reverse_cons] at h
  rcases Nat.lt_or_ge k cs.reverse.length with hlt | hge
  · rw [List.getElem?_append_left hlt] at h
    exact .inr h
  · rw [List.getElem?_append_right hge, List.getElem?_singleton] at h
    rw [List.length_reverse] at hge h
    split_ifs at h with hk
    cases h
    exact .inl ⟨by omega, rfl⟩

lemma getElem?_reverse_of_cons {call call' : SlotCall} {cs : List SlotCall} {k : ℕ}
    (h : cs.reverse[k]? = some call') : (call :: cs).reverse[k]? = some call' := by
  rw [List.reverse_cons, List.getElem?_append_left (List.getElem?_eq_some_iff.mp h).1, h]

namespace Process.Inv

variable {s₀ : Session Token} {p q : slot.Process} {c : ℕ} {conn conn' : Server.State}
  {call call' : SlotCall} {cs : List SlotCall}

/-- A connection moves. -/
lemma set (h : Inv slot modelName debug s₀ p) (hc : p.conns c = some conn)
    (hst : Server.Step (handler modelName debug c) conn conn')
    (hlen : conn.calls.length ≤ conn'.calls.length)
    (hcarried : ∀ k call, conn'.calls.reverse[k]? = some call →
      ∃ run, p.slot.runs (callId c k) = some run ∧ Carried call run) :
    Inv slot modelName debug s₀ (p.set slot c conn') where
  conns c' conn'' hc' := by
    rcases Section.update_cases hc' with ⟨rfl, rfl⟩ | ⟨-, hc'⟩
    · exact ⟨(h.conns c' conn hc).1.step hst, (h.conns c' conn hc).2⟩
    · exact h.conns c' conn'' hc'
  slot := h.slot
  carried c' conn'' hc' := by
    rcases Section.update_cases hc' with ⟨rfl, rfl⟩ | ⟨-, hc'⟩
    · exact hcarried
    · exact h.carried c' conn'' hc'
  owned i run hi := by
    obtain ⟨c', conn'', k, rfl, hc', hk⟩ := h.owned i run hi
    by_cases hcc : c' = c
    · subst hcc
      rw [hc] at hc'
      cases hc'
      exact ⟨c', conn', k, rfl, Function.update_self .., hk.trans_le hlen⟩
    · exact ⟨c', conn'', k, rfl, (Function.update_of_ne hcc ..).trans hc', hk⟩

/-- The latest call of a connection. -/
lemma carried_head (h : Inv slot modelName debug s₀ p) (hc : p.conns c = some conn)
    (hcalls : conn.calls = call :: cs) :
    ∃ run, p.slot.runs (callId c cs.length) = some run ∧ Carried call run := by
  refine h.carried c conn hc cs.length call ?_
  rw [hcalls, List.reverse_cons, List.getElem?_append_right (by simp)]
  simp

/-- A connection moves together with its latest call. -/
lemma setCall (h : Inv slot modelName debug s₀ p) (hc : p.conns c = some conn)
    (hst : Server.Step (handler modelName debug c) conn conn') (hcalls : conn.calls = call :: cs)
    (hcalls' : conn'.calls = call' :: cs)
    (hcall' : ∀ run, p.slot.runs (callId c cs.length) = some run → Carried call run →
      Carried call' run) : Inv slot modelName debug s₀ (p.set slot c conn') := by
  refine h.set hc hst (by rw [hcalls, hcalls']; exact le_rfl) fun k call'' hk => ?_
  rw [hcalls'] at hk
  rcases getElem?_reverse_cons hk with ⟨rfl, rfl⟩ | hk
  · obtain ⟨run, hrun, hcarried⟩ := h.carried_head hc hcalls
    exact ⟨run, hrun, hcall' run hrun hcarried⟩
  · exact h.carried c conn hc k call'' (by rw [hcalls]; exact getElem?_reverse_of_cons hk)

/-- The next event of a call finds room in the channel. -/
lemma carried_emit (h : Inv slot modelName debug s₀ p) (hc : p.conns c = some conn) {ch : Channel}
    {d : Drain} (hpc : conn.pc = .stream ch d) (hcalls : conn.calls = call :: cs)
    (hresult : call.result = none) {run : Running}
    (hrun : p.slot.runs (callId c cs.length) = some run) {ev : SlotEvent}
    (hev : run.events[call.emitted.length]? = some ev) (hcarried : Carried call run) :
    Carried { call with emitted := call.emitted ++ [(ev, ch.queue.length)] } run := by
  obtain ⟨hlt, rfl⟩ := List.getElem?_eq_some_iff.mp hev
  have hroom : ch.queue.length < EVENT_CAPACITY := by
    have hat := (Server.inv_of_reachable (h.conns c conn hc).1).at_pc
    rw [hpc] at hat
    obtain ⟨call', out, ⟨cs', hcalls', -⟩, haccepted, -⟩ := hat
    rw [hcalls] at hcalls'
    cases hcalls'
    have hqueue := congrArg List.length haccepted
    rw [List.length_append] at hqueue
    have hfilter : call.accepted.length ≤ call.emitted.length := by
      rw [SlotCall.accepted, List.length_map]
      exact List.length_filter_le ..
    have hfour := ((inv_of_reachable h.slot).linked (callId c cs.length))
    rw [hrun] at hfour
    have hle := hfour.events_le.1
    have hcapacity : EVENT_CAPACITY = 64 := rfl
    omega
  refine ⟨hcarried.req, hcarried.sink, ?_, ?_, ?_⟩
  · have htake := List.prefix_iff_eq_take.mp hcarried.emitted
    rw [List.length_map] at htake
    rw [List.map_append, List.map_singleton, htake, ← List.take_succ_eq_append_getElem hlt]
    exact List.take_prefix ..
  · intro e he
    rcases List.mem_append.mp he with he | he
    · exact hcarried.fits e he
    · rw [List.mem_singleton.mp he]
      exact hroom
  · intro r hr
    rw [hresult] at hr
    cases hr

lemma accept (h : Inv slot modelName debug s₀ p) :
    Inv slot modelName debug s₀
      { p.set slot p.counter Server.State.init with counter := p.counter + 1 } where
  conns c conn hc := by
    rcases Section.update_cases hc with ⟨rfl, rfl⟩ | ⟨-, hc⟩
    · exact ⟨.of_init rfl, Nat.lt_succ_self _⟩
    · exact ⟨(h.conns c conn hc).1, Nat.lt_succ_of_lt (h.conns c conn hc).2⟩
  slot := h.slot
  carried c conn hc := by
    rcases Section.update_cases hc with ⟨rfl, rfl⟩ | ⟨-, hc⟩
    · intro k call hk
      simp [Server.State.init] at hk
    · exact h.carried c conn hc
  owned i run hi := by
    obtain ⟨c, conn, k, rfl, hc, hk⟩ := h.owned i run hi
    have hne : c ≠ p.counter := (h.conns c conn hc).2.ne
    exact ⟨c, conn, k, rfl, (Function.update_of_ne hne ..).trans hc, hk⟩

lemma slotStep (h : Inv slot modelName debug s₀ p) {t : slot.State} (hst : slot.Step p.slot t)
    (hold : ∀ i, p.slot.runs i = none → t.runs i = none) :
    Inv slot modelName debug s₀ { p with slot := t } where
  conns := h.conns
  slot := h.slot.step hst
  carried c conn hc k call hk := by
    obtain ⟨run, hrun, hcarried⟩ := h.carried c conn hc k call hk
    obtain ⟨run', hrun', hcontinues⟩ := continues_of_step hst hrun
    exact ⟨run', hrun', hcarried.continues hcontinues⟩
  owned i run hi := by
    cases hrun : p.slot.runs i with
    | none =>
      simp only [hold i hrun] at hi
      cases hi
    | some run' => exact h.owned i run' hrun

/-- A request is a new call of the slot. -/
lemma newCall (h : Inv slot modelName debug s₀ p) (hc : p.conns c = some conn)
    (hpc : conn.pc = .readNext) (req : InferenceRequest) :
    Inv slot modelName debug s₀ { p.set slot c { conn with
        pc := afterNext (.message (.inference req))
        received := conn.received ++ [.inference req]
        calls := ⟨req, [], none⟩ :: conn.calls } with
      slot := p.slot.set (callId c conn.calls.length) ⟨req, wantsSink req, [], .entered⟩ } := by
  have hnew : p.slot.runs (callId c conn.calls.length) = none := by
    by_contra hsome
    obtain ⟨run, hrun⟩ := Option.ne_none_iff_exists'.mp hsome
    obtain ⟨c', conn', k, hid, hc', hk⟩ := h.owned _ run hrun
    obtain ⟨rfl, rfl⟩ := callId_inj hid
    rw [hc] at hc'
    cases hc'
    exact absurd hk (lt_irrefl _)
  have hkeep {i : ℕ} {run : Running} (hrun : p.slot.runs i = some run) :
      (p.slot.set (callId c conn.calls.length) ⟨req, wantsSink req, [], .entered⟩).runs i =
        some run := by
    have hne : i ≠ callId c conn.calls.length := by
      rintro rfl
      rw [hnew] at hrun
      cases hrun
    exact (Function.update_of_ne hne ..).trans hrun
  constructor
  · intro c' conn' hc'
    rcases Section.update_cases hc' with ⟨rfl, rfl⟩ | ⟨-, hc'⟩
    · exact ⟨(h.conns c' conn hc).1.step (.next (.message (.inference req)) hpc),
        (h.conns c' conn hc).2⟩
    · exact h.conns c' conn' hc'
  · exact h.slot.step (.enter _ req (wantsSink req) hnew)
  · intro c' conn' hc' k call' hk
    rcases Section.update_cases hc' with ⟨rfl, rfl⟩ | ⟨-, hc'⟩
    · rcases getElem?_reverse_cons hk with ⟨rfl, rfl⟩ | hk
      · exact ⟨_, runs_set .., rfl, rfl, List.nil_prefix, by simp, by simp⟩
      · obtain ⟨run, hrun, hcarried⟩ := h.carried c' conn hc k call' hk
        exact ⟨run, hkeep hrun, hcarried⟩
    · obtain ⟨run, hrun, hcarried⟩ := h.carried c' conn' hc' k call' hk
      exact ⟨run, hkeep hrun, hcarried⟩
  · intro i run hi
    rcases Section.update_cases hi with ⟨rfl, rfl⟩ | ⟨-, hi⟩
    · exact ⟨c, _, _, rfl, Function.update_self .., Nat.lt_succ_self _⟩
    · obtain ⟨c', conn', k, rfl, hc', hk⟩ := h.owned i run hi
      by_cases hcc : c' = c
      · subst hcc
        rw [hc] at hc'
        cases hc'
        exact ⟨c', _, k, rfl, Function.update_self .., Nat.lt_succ_of_lt hk⟩
      · exact ⟨c', conn', k, rfl, (Function.update_of_ne hcc ..).trans hc', hk⟩

lemma step (h : Inv slot modelName debug s₀ p) (hst : Process.Step slot modelName debug p q) :
    Inv slot modelName debug s₀ q := by
  cases hst with
  | accept => exact h.accept
  | @handler c conn conn' hc hst hcalls =>
    refine h.set hc hst (by rw [hcalls]) fun k call hk => ?_
    rw [hcalls] at hk
    exact h.carried c conn hc k call hk
  | call hc hpc req => exact h.newCall hc hpc req
  | slot hst hold => exact h.slotStep hst hold
  | emit hc hpc hcalls hresult hrun hev =>
    refine h.setCall hc (.emit hpc hcalls hresult _) hcalls rfl fun run' hrun' hcarried => ?_
    rw [hrun] at hrun'
    cases hrun'
    exact h.carried_emit hc hpc hcalls hresult hrun hev hcarried
  | @finish _ _ _ _ _ _ run r hc hpc hcalls hresult hrun hreturned hall =>
    refine h.setCall hc (.finish hpc hcalls hresult r) hcalls rfl fun run' hrun' hcarried => ?_
    rw [hrun] at hrun'
    cases hrun'
    refine ⟨hcarried.req, hcarried.sink, hcarried.emitted, hcarried.fits, fun r' hr' => ?_⟩
    cases hr'
    refine ⟨hreturned, hcarried.emitted.eq_of_length ?_⟩
    rw [List.length_map, hall]
  | @runReturns c conn call cs run r hc hpc hcalls hrun hreturned =>
    refine h.setCall hc (.runReturns hpc hcalls r) hcalls rfl fun run' hrun' hcarried => ?_
    rw [hrun] at hrun'
    cases hrun'
    refine ⟨hcarried.req, hcarried.sink, hcarried.emitted, hcarried.fits, fun r' hr' => ?_⟩
    cases hr'
    refine ⟨hreturned, ?_⟩
    have hsink : wantsSink call.req = false :=
      not_wantsSink_of_run (h.conns c conn hc).1 hpc call (by rw [hcalls]; rfl)
    have hl := (inv_of_reachable h.slot).linked (callId c cs.length)
    rw [hrun] at hl
    have hnil := hl.events_le.2 (hcarried.sink.trans hsink)
    rw [hnil]
    exact List.prefix_nil.mp (hnil ▸ hcarried.emitted)

/-- A call that has a result, in the serial order of all calls. -/
lemma answered (h : Inv slot modelName debug s₀ p) (hc : p.conns c = some conn) {k : ℕ}
    (hk : conn.calls.reverse[k]? = some call) {r : Except String InferenceResponse}
    (hr : call.result = some r) :
    (∃ e, slot.prompt call.req = .error e ∧ r = .error e ∧ call.accepted = []) ∨
      ∃ before after, p.slot.history =
          before ++ (callId c k, call.req, wantsSink call.req) :: after ∧
        (slot.runInner call.req (wantsSink call.req)
          (slot.serve (before.map Prod.snd) s₀)).1.result = .ok r ∧
        call.accepted = (slot.runInner call.req (wantsSink call.req)
          (slot.serve (before.map Prod.snd) s₀)).1.events := by
  obtain ⟨run, hrun, hcarried⟩ := h.carried c conn hc k call hk
  have hslot := inv_of_reachable h.slot
  have hl := hslot.linked (callId c k)
  have haccepted := hcarried.accepted hr
  obtain ⟨hpc, -⟩ := hcarried.result r hr
  have hreq := hcarried.req
  have hsink := hcarried.sink
  rw [hrun] at hl
  generalize hcall : p.slot.closures.calls (callId c k) = closure at hl
  cases hl with
  | entered | unblock => cases hpc
  | refused sink hprompt =>
    cases hpc
    rw [← hreq]
    exact .inl ⟨_, hprompt, rfl, haccepted⟩
  | answered job b =>
    obtain ⟨before, after, hhistory, hanswer⟩ := hslot.answer_eq hcall
    simp only at hreq hsink haccepted hpc
    rw [← hsink, ← hreq]
    refine .inr ⟨before, after, hhistory, ?_, ?_⟩
    · rw [← hanswer]
      exact Pc.returned.inj hpc
    · rw [← hanswer, haccepted]

end Process.Inv

lemma process_inv_of_reachable {s₀ : Session Token} {p : slot.Process}
    (h : (slot.serveLoop modelName debug s₀).Reachable p) :
    Process.Inv slot modelName debug s₀ p := by
  refine h.invariant ?_ fun _ _ hst hp => hp.step hst
  rintro _ rfl
  exact ⟨by simp, .of_init rfl, by simp, by simp⟩

/-! ### What the connections get -/

/-- A server with any number of connections on one slot. Every connection is a run of the handler,
which writes the frames of its calls one call after the other, and the calls of all of them together
are a run of the slot. Where a request has a result, the frames of its call are all the events and
the result that `runInner` gives behind the requests that come before it in one serial order of all
the requests, of all the connections. -/
theorem connections_of_reachable (slot : LlamaSlot Token N) (modelName : String)
    (debug : ClientMessage → String) (s₀ : Session Token) {p : slot.Process}
    (h : (slot.serveLoop modelName debug s₀).Reachable p) :
    (∀ c conn, p.conns c = some conn →
      (handleClient (handler modelName debug c)).Reachable conn ∧
        Trace (handler modelName debug c) conn) ∧
    (slot.machine s₀).Reachable p.slot ∧
    ∀ c conn k call r, p.conns c = some conn → conn.calls.reverse[k]? = some call →
      call.result = some r →
      (∃ e, slot.prompt call.req = .error e ∧ r = .error e ∧ call.frames = [.inferenceError e]) ∨
      ∃ before after, p.slot.history =
          before ++ (callId c k, call.req, wantsSink call.req) :: after ∧
        (slot.runInner call.req (wantsSink call.req)
          (slot.serve (before.map Prod.snd) s₀)).1.result = .ok r ∧
        call.frames = (slot.runInner call.req (wantsSink call.req)
          (slot.serve (before.map Prod.snd) s₀)).1.events.map SlotEvent.frame ++ [replyOf r] := by
  have hinv := process_inv_of_reachable h
  refine ⟨fun c conn hc => ?_, hinv.slot, fun c conn k call r hc hk hr => ?_⟩
  · obtain ⟨hconn, -⟩ := hinv.conns c conn hc
    exact ⟨hconn, (Server.inv_of_reachable hconn).trace⟩
  have hframes : call.frames = call.accepted.map SlotEvent.frame ++ [replyOf r] := by
    rw [SlotCall.frames, hr]
    rfl
  rcases hinv.answered hc hk hr with
    ⟨e, hprompt, rfl, hnone⟩ | ⟨before, after, hhistory, hresult, hall⟩
  · rw [hnone] at hframes
    exact .inl ⟨e, hprompt, rfl, hframes⟩
  · rw [hall] at hframes
    exact .inr ⟨before, after, hhistory, hresult, hframes⟩

/-! ### Two connections -/

lemma steps_closures {s₀ : Session Token} {p : slot.Process}
    {closures : Section.State (Session Token) slot.Job (Stage Token) (Except String String)}
    (h : Relation.ReflTransGen slot.locked.Work p.slot.closures closures) :
    (slot.serveLoop modelName debug s₀).Steps p
      { p with slot := { p.slot with closures := closures } } := by
  induction h with
  | refl => exact .refl
  | tail _ hwork ih => exact ih.tail (.slot (.work hwork) fun _ hi => hi)

/-- A request for events whose prompt has eight tokens. -/
def longText : InferenceRequest := { demoText "12345678" with stream := true }

/-- The error that it is answered with behind a request that has left the position at 3. -/
def longError : String := "prompt 8 tokens at pos 3 exceeds context 8"

/-- What the first request leaves. -/
def servedSession : Session ℕ := (demoSlot.generate "a" 2 Session.demoSession).2

lemma runs_longText :
    demoSlot.locked.Runs (.tokenize "12345678" 2) servedSession (.error longError)
      servedSession := by
  have hlong : Overlong demoSlot servedSession longText "12345678"
      ("12345678".toList.map Char.toNat) := ⟨rfl, rfl, by decide +kernel, by decide +kernel⟩
  have hpos : asUsize servedSession.nCur = 3 := by decide +kernel
  have hruns : demoSlot.locked.Runs _ servedSession _ _ := runs_generate "12345678" 2 servedSession
  rw [generate_of_overlong hlong, hpos] at hruns
  exact hruns

/-- Two connections call the slot at the same time. The first one gets the session, and the second
one is refused behind it and then leaves. -/
lemma exists_connections : ∃ p : demoSlot.Process,
    (demoSlot.serveLoop "demo" (fun _ => "message") Session.demoSession).Reachable p ∧
    p.slot.history = [(callId 0 0, demoText "a", false), (callId 1 0, longText, true)] ∧
    ∃ conn call, p.conns 1 = some conn ∧ conn.pc = .ended (.ok ()) ∧ conn.writeFailed = false ∧
      conn.received = [.hello PROTOCOL_VERSION, .inference longText] ∧ conn.calls = [call] ∧
      call.req = longText ∧ call.result = some (.error longError) := by
  have h₀ : (demoSlot.serveLoop "demo" (fun _ => "message") Session.demoSession).Reachable _ :=
    .of_init rfl
  have h₁ := (h₀.step .accept).step .accept
  have h₂ := h₁.step (.handler (c := 0) rfl (.first (.message (.hello PROTOCOL_VERSION)) rfl) rfl)
  have h₃ := h₂.step (.handler (c := 1) rfl (.first (.message (.hello PROTOCOL_VERSION)) rfl) rfl)
  have h₄ := h₃.step (.handler (c := 1) rfl (.write .hello rfl) rfl)
  have h₅ := h₄.step (.handler (c := 0) rfl (.write .hello rfl) rfl)
  have h₆ := (h₅.step (.call (c := 1) rfl rfl longText)).step
    (.call (c := 0) rfl rfl (demoText "a"))
  have h₇ := h₆.step (.slot (.start (i := 2) rfl rfl (by rfl)) (runs_set_none rfl))
  have h₈ := h₇.step (.slot (.start (i := 0) rfl rfl (by rfl)) (runs_set_none rfl))
  -- the first connection gets the session
  have h₉ := h₈.steps
    (steps_closures (Section.works_of_waiting (i := 0) rfl rfl (runs_generate ..)))
  have h₁₀ := h₉.steps (steps_closures (Section.works_of_waiting (i := 2) rfl rfl runs_longText))
  have h₁₁ := h₁₀.step (.slot (.fail (i := 2) rfl rfl rfl) (runs_set_none rfl))
  have h₁₂ := (h₁₁.step (.emit (c := 1) rfl rfl rfl rfl rfl rfl)).step
    (.emit (c := 1) rfl rfl rfl rfl rfl rfl)
  have h₁₃ := h₁₂.step (.finish (c := 1) rfl rfl rfl rfl rfl rfl rfl)
  -- its frames are written, and the client leaves
  have h₁₄ := (h₁₃.step (.handler (c := 1) rfl (.drain rfl rfl (.event rfl)) rfl)).step
    (.handler (c := 1) rfl (.write (.event ..) rfl) rfl)
  have h₁₅ := (h₁₄.step (.handler (c := 1) rfl (.drain rfl rfl (.event rfl)) rfl)).step
    (.handler (c := 1) rfl (.write (.event ..) rfl) rfl)
  have h₁₆ := (h₁₅.step (.handler (c := 1) rfl (.drain rfl rfl (.empty rfl)) rfl)).step
    (.handler (c := 1) rfl (.drain rfl rfl (.finished rfl)) rfl)
  have h₁₇ := (h₁₆.step (.handler (c := 1) rfl (.drain rfl rfl (.drained nofun)) rfl)).step
    (.handler (c := 1) rfl (.write (.reply _) rfl) rfl)
  have h₁₈ := h₁₇.step (.handler (c := 1) rfl (.next .eof rfl) rfl)
  exact ⟨_, h₁₈, rfl, _, _, rfl, rfl, rfl, rfl, rfl, rfl, rfl⟩

/-- What the second connection has written is the answer to its request behind that of the first. -/
theorem connections_of_reachable_demo :
    ∃ (p : demoSlot.Process) (conn : Server.State),
      (demoSlot.serveLoop "demo" (fun _ => "message") Session.demoSession).Reachable p ∧
      p.slot.history = [(callId 0 0, demoText "a", false), (callId 1 0, longText, true)] ∧
      p.conns 1 = some conn ∧ conn.pc = .ended (.ok ()) ∧
      conn.written = .hello PROTOCOL_VERSION "demo" none ::
        ((demoSlot.runInner longText true
          (demoSlot.serve [(demoText "a", false)] Session.demoSession)).1.events.map
            SlotEvent.frame ++ [.inferenceError longError]) := by
  obtain ⟨p, hp, hhistory, conn, call, hc, hpc, hwrites, hreceived, hcalls, hreq, hr⟩ :=
    exists_connections
  obtain ⟨hconns, -, hanswers⟩ := connections_of_reachable demoSlot "demo" (fun _ => "message")
    Session.demoSession hp
  obtain ⟨-, htrace⟩ := hconns 1 conn hc
  refine ⟨p, conn, hp, hhistory, hc, hpc, ?_⟩
  have hwritten := htrace.written_eq ⟨_, hpc⟩ hwrites
  simp only [State.word, hreceived, hcalls, callFrames_cons, callFrames_nil] at hwritten
  rcases hanswers 1 conn 0 call _ hc (by rw [hcalls]; rfl) hr with
    ⟨e, he, -⟩ | ⟨before, after, hbefore, -, hframes⟩
  · rw [hreq] at he
    cases he
  · rw [hreq] at hbefore hframes
    have hone : before = [(callId 0 0, demoText "a", false)] := by
      rw [hhistory] at hbefore
      rcases before with _ | ⟨first, _ | ⟨second, before⟩⟩
      · have hid : callId 0 0 = callId 1 0 := congrArg Prod.fst (List.cons.inj hbefore).1
        exact absurd (callId_inj hid).1 Nat.zero_ne_one
      · rw [(List.cons.inj hbefore).1]
      · simp at hbefore
    rw [hwritten, hframes, hone]
    simp [helloFrame, handler, replyOf, wantsSink, longText]

end LlamaSlot
end ModelApi.Llama
