import ModelApi.Client.Matching
import ModelApi.Server.Trace

/-!
# What the frames of a handler say about the requests

The frames that a handler writes carry no request ids: each belongs to the first request that has
not been answered. Reading them so, the record of every request comes out as the slot's call for
this request.
-/

namespace ModelApi.Link

open Client Server

/-- An event of the slot as the client sees it. -/
def toStream : SlotEvent → StreamEvent
  | .chunk c    => .chunk c
  | .progress p => .progress p

@[simp] lemma eventOf_slotFrame (ev : SlotEvent) : eventOf ev.frame = some (toStream ev) := by
  cases ev <;> rfl

/-- The requests that are not answered, and what was sent for each request. -/
structure Record where
  unanswered : List ℕ
  events : ℕ → List StreamEvent
  answers : ℕ → Option ServerMessage

namespace Record

/-- A frame belongs to the first request that is not answered. -/
def deliver (r : Record) (f : ServerMessage) : Record :=
  match r.unanswered with
  | []         => r
  | i :: later =>
    if f.isTerminal then
      { r with unanswered := later, answers := Function.update r.answers i (some f) }
    else match eventOf f with
      | some ev => { r with events := Function.update r.events i (r.events i ++ [ev]) }
      | none    => r

/-- Nothing has been sent for the requests of these calls. -/
def start (asked : List ℕ) : Record := ⟨asked, fun _ => [], fun _ => none⟩

/-- One more request. -/
def ask (r : Record) (i : ℕ) : Record := { r with unanswered := r.unanswered ++ [i] }

lemma deliver_of_isOutOfBand (r : Record) {f : ServerMessage} (hf : f.isOutOfBand = true) :
    r.deliver f = r := by
  rw [deliver]
  split
  · rfl
  · rw [isTerminal_of_isOutOfBand hf, eventOf_of_isOutOfBand hf]
    rfl

lemma deliver_of_nil {r : Record} (h : r.unanswered = []) (f : ServerMessage) :
    r.deliver f = r := by
  rw [deliver, h]

lemma deliver_terminal {r : Record} {i : ℕ} {later : List ℕ} (h : r.unanswered = i :: later)
    {f : ServerMessage} (hf : f.isTerminal = true) : r.deliver f =
      { r with unanswered := later, answers := Function.update r.answers i (some f) } := by
  simp only [deliver, h, hf, if_true]

lemma deliver_event {r : Record} {i : ℕ} {later : List ℕ} (h : r.unanswered = i :: later)
    {f : ServerMessage} (hf : f.isTerminal = false) {ev : StreamEvent}
    (hev : eventOf f = some ev) : r.deliver f =
      { r with events := Function.update r.events i (r.events i ++ [ev]) } := by
  simp only [deliver, h, hf, hev]
  rfl

lemma foldl_deliver_oob (r : Record) {frames : List ServerMessage}
    (h : ∀ f ∈ frames, f.isOutOfBand = true) : frames.foldl deliver r = r := by
  induction frames with
  | nil => rfl
  | cons f frames ih =>
    obtain ⟨hf, hframes⟩ := List.forall_mem_cons.mp h
    rw [List.foldl_cons, deliver_of_isOutOfBand r hf, ih hframes]

/-- Every terminal frame answers one request. -/
lemma unanswered_foldl (r : Record) (frames : List ServerMessage) :
    (frames.foldl deliver r).unanswered =
      r.unanswered.drop (frames.countP ServerMessage.isTerminal) := by
  induction frames generalizing r with
  | nil => rfl
  | cons f frames ih =>
    rw [List.foldl_cons, ih]
    cases hr : r.unanswered with
    | nil => rw [deliver_of_nil hr, hr, List.drop_nil, List.drop_nil]
    | cons i later =>
      cases hf : f.isTerminal with
      | true => rw [deliver_terminal hr hf, List.countP_cons_of_pos hf, List.drop_succ_cons]
      | false =>
        rw [List.countP_cons_of_neg (by simp [hf])]
        have hsame : (r.deliver f).unanswered = r.unanswered := by
          cases hev : eventOf f with
          | none => simp [deliver, hr, hf, hev]
          | some ev => rw [deliver_event hr hf hev]
        rw [hsame, hr]

/-- One more request makes no difference to frames that belong to earlier ones. -/
lemma ask_deliver {r : Record} {f : ServerMessage} (h : r.unanswered ≠ [] ∨ f.isOutOfBand = true)
    (i : ℕ) : (r.ask i).deliver f = (r.deliver f).ask i := by
  rcases h with hne | hoob
  · obtain ⟨j, later, hr⟩ := List.exists_cons_of_ne_nil hne
    have hask : (r.ask i).unanswered = j :: (later ++ [i]) := by
      rw [ask, hr]
      rfl
    simp only [deliver, hask, hr]
    split
    · rfl
    · split
      · rw [ask, ask, hr]
        rfl
      · rfl
  · rw [deliver_of_isOutOfBand _ hoob, deliver_of_isOutOfBand _ hoob]

end Record

/-! ### The frames of the calls -/

/-- The calls of a handler in order, each of which has returned before the next one. -/
def Sequential (calls : List SlotCall) : Prop := ∀ c ∈ calls.dropLast, c.result.isSome = true

lemma Sequential.tail {c : SlotCall} {cs : List SlotCall} (h : Sequential (c :: cs)) :
    Sequential cs := by
  cases cs with
  | nil =>
    intro e he
    cases he
  | cons d cs =>
    intro e he
    apply h e
    rw [List.dropLast_cons_of_ne_nil (List.cons_ne_nil d cs)]
    exact List.mem_cons_of_mem _ he

/-- The frames that a call has put in front of its result. -/
lemma countP_frames_le (c : SlotCall) : c.frames.countP ServerMessage.isTerminal ≤ 1 := by
  have hevents : (c.accepted.map SlotEvent.frame).countP ServerMessage.isTerminal = 0 := by
    rw [List.countP_eq_zero]
    intro f hf
    obtain ⟨ev, -, rfl⟩ := List.mem_map.mp hf
    simp
  rw [SlotCall.frames, List.countP_append, hevents, zero_add]
  refine List.countP_le_length.trans ?_
  cases c.result <;> simp

/-- A frame that belongs to a request comes behind the answers of fewer requests than there were
calls. -/
lemma countP_lt_of_prefix {cs : List SlotCall} {oob pre : List ServerMessage} {f : ServerMessage}
    (hoob : ∀ f ∈ oob, f.isOutOfBand = true) (hf : f.isOutOfBand = false)
    (h : pre ++ [f] <+: cs.flatMap SlotCall.frames ++ oob) :
    pre.countP ServerMessage.isTerminal < cs.length := by
  induction cs generalizing pre with
  | nil =>
    have hmem : f ∈ oob := h.subset (by simp)
    rw [hoob f hmem] at hf
    cases hf
  | cons c cs ih =>
    rw [List.flatMap_cons, List.append_assoc] at h
    rw [List.length_cons]
    by_cases hlen : pre.length < c.frames.length
    · -- the frame is one of this call, so no answer comes before it
      have hpre : pre <+: c.frames.dropLast := by
        have hwhole : pre ++ [f] <+: c.frames :=
          List.prefix_of_prefix_length_le h (List.prefix_append _ _) (by simpa using hlen)
        obtain ⟨rest, hrest⟩ := hwhole
        rw [← hrest, List.append_assoc, List.dropLast_append_of_ne_nil (by simp)]
        exact List.prefix_append _ _
      have hzero : c.frames.dropLast.countP ServerMessage.isTerminal = 0 := by
        rw [List.countP_eq_zero]
        intro g hg
        rw [SlotCall.frames] at hg
        have hevent : g ∈ c.accepted.map SlotEvent.frame := by
          cases hresult : c.result with
          | none =>
            rw [hresult] at hg
            simpa using List.mem_of_mem_dropLast hg
          | some r =>
            rw [hresult] at hg
            simpa using hg
        obtain ⟨ev, -, rfl⟩ := List.mem_map.mp hevent
        simp
      have hle := hpre.sublist.countP_le (p := ServerMessage.isTerminal)
      omega
    · obtain ⟨pre, rfl⟩ : c.frames <+: pre :=
        List.prefix_of_prefix_length_le (List.prefix_append _ _)
          ((List.prefix_append _ _).trans h) (not_lt.mp hlen)
      rw [List.append_assoc] at h
      have hlt := ih ((List.prefix_append_right_inj _).mp h)
      have hone := countP_frames_le c
      rw [List.countP_append]
      omega

/-- What the record says about request `i`, and the slot's call for it, if there was one. -/
inductive Kept (r : Record) (i : ℕ) : Option SlotCall → Prop where
  | answered {c : SlotCall} {result : Except String InferenceResponse}
      (hresult : c.result = some result) (hanswer : r.answers i = some (replyOf result))
      (hevents : r.events i = c.accepted.map toStream) : Kept r i (some c)
  | unanswered {c : Option SlotCall} (hanswer : r.answers i = none)
      (hevents : r.events i <+: (c.toList.flatMap SlotCall.accepted).map toStream) : Kept r i c

lemma Kept.of_fresh {r : Record} {i : ℕ} (h : r.events i = [] ∧ r.answers i = none)
    (c : Option SlotCall) : Kept r i c := by
  refine .unanswered h.2 ?_
  rw [h.1]
  exact List.nil_prefix

/-- The first frames of a call and of what comes behind it. -/
lemma prefix_frames {c : SlotCall} {pre rest : List ServerMessage}
    (hrest : c.result = none → ∀ f ∈ rest, f.isOutOfBand = true) (h : pre <+: c.frames ++ rest) :
    (∃ evs oob, evs <+: c.accepted ∧ (∀ f ∈ oob, f.isOutOfBand = true) ∧
      pre = evs.map SlotEvent.frame ++ oob) ∨
    ∃ result pre', c.result = some result ∧ pre' <+: rest ∧
      pre = c.accepted.map SlotEvent.frame ++ replyOf result :: pre' := by
  rw [SlotCall.frames, List.append_assoc] at h
  by_cases hlen : pre.length ≤ (c.accepted.map SlotEvent.frame).length
  · have hpre : pre <+: c.accepted.map SlotEvent.frame :=
      List.prefix_of_prefix_length_le h (List.prefix_append _ _) hlen
    refine .inl ⟨c.accepted.take pre.length, [], List.take_prefix _ _, by simp, ?_⟩
    rw [List.map_take, List.append_nil]
    exact List.prefix_iff_eq_take.mp hpre
  · obtain ⟨pre, rfl⟩ : c.accepted.map SlotEvent.frame <+: pre :=
      List.prefix_of_prefix_length_le (List.prefix_append _ _) h (by omega)
    have hpre := (List.prefix_append_right_inj _).mp h
    cases hresult : c.result with
    | none =>
      rw [hresult] at hpre
      exact .inl ⟨c.accepted, pre, List.prefix_rfl, fun f hf =>
        hrest hresult f (hpre.subset hf), rfl⟩
    | some result =>
      rw [hresult] at hpre
      cases pre with
      | nil => simp at hlen
      | cons f pre =>
        have hcons : f :: pre <+: replyOf result :: rest := hpre
        obtain ⟨rfl, hrest'⟩ := List.cons_prefix_cons.mp hcons
        exact .inr ⟨result, pre, rfl, hrest', rfl⟩

lemma foldl_deliver_events {i : ℕ} {later : List ℕ} (evs : List SlotEvent)
    (events : ℕ → List StreamEvent) (answers : ℕ → Option ServerMessage) :
    (evs.map SlotEvent.frame).foldl Record.deliver ⟨i :: later, events, answers⟩ =
      ⟨i :: later, Function.update events i (events i ++ evs.map toStream), answers⟩ := by
  induction evs generalizing events with
  | nil => simp
  | cons ev evs ih =>
    rw [List.map_cons, List.foldl_cons,
      Record.deliver_event rfl (SlotEvent.isTerminal_frame ev) (eventOf_slotFrame ev), ih]
    simp

/-- The record of the first frames of some calls, made for the first of the requests. -/
lemma kept_foldl {cs : List SlotCall} {asked : List ℕ} {oob pre : List ServerMessage}
    {events : ℕ → List StreamEvent} {answers : ℕ → Option ServerMessage} (hnodup : asked.Nodup)
    (hfresh : ∀ i ∈ asked, events i = [] ∧ answers i = none) (hcs : Sequential cs)
    (hoob : ∀ f ∈ oob, f.isOutOfBand = true) (h : pre <+: cs.flatMap SlotCall.frames ++ oob) :
    (∀ i ∉ asked, (pre.foldl Record.deliver ⟨asked, events, answers⟩).events i = events i ∧
      (pre.foldl Record.deliver ⟨asked, events, answers⟩).answers i = answers i) ∧
    ∀ (k i : ℕ), asked[k]? = some i →
      Kept (pre.foldl Record.deliver ⟨asked, events, answers⟩) i cs[k]? := by
  induction cs generalizing asked pre events answers with
  | nil =>
    rw [Record.foldl_deliver_oob _ fun f hf => hoob f (h.subset hf)]
    refine ⟨fun i _ => ⟨rfl, rfl⟩, fun k i hk => ?_⟩
    exact .of_fresh (hfresh i (List.mem_of_getElem? hk)) _
  | cons c cs ih =>
    cases asked with
    | nil =>
      have hsame : ∀ pre : List ServerMessage,
          pre.foldl Record.deliver ⟨[], events, answers⟩ = ⟨[], events, answers⟩ := by
        intro pre
        induction pre with
        | nil => rfl
        | cons f pre ih => rw [List.foldl_cons, Record.deliver_of_nil rfl, ih]
      rw [hsame]
      exact ⟨fun i _ => ⟨rfl, rfl⟩, fun k i hk => by simp at hk⟩
    | cons j later =>
      obtain ⟨hj, hlater⟩ := List.nodup_cons.mp hnodup
      obtain ⟨hevents, hanswer⟩ := hfresh j List.mem_cons_self
      rw [List.flatMap_cons, List.append_assoc] at h
      have hlast : c.result = none →
          ∀ f ∈ cs.flatMap SlotCall.frames ++ oob, f.isOutOfBand = true := by
        intro hrun
        cases cs with
        | nil => exact hoob
        | cons d cs =>
          have hdone := hcs c (by simp)
          rw [hrun] at hdone
          cases hdone
      rcases prefix_frames hlast h with ⟨evs, oob', hevs, hoob', rfl⟩ | ⟨r, pre, hr, hpre, rfl⟩
      · -- the request is not answered yet
        rw [List.foldl_append, foldl_deliver_events, Record.foldl_deliver_oob _ hoob']
        refine ⟨fun i hi => ⟨Function.update_of_ne ?_ .., rfl⟩, fun k i hk => ?_⟩
        · rintro rfl
          exact hi List.mem_cons_self
        · cases k with
          | zero =>
            obtain rfl : j = i := by simpa using hk
            refine .unanswered hanswer ?_
            simp only [Function.update_self, hevents, List.nil_append, List.getElem?_cons_zero,
              Option.toList_some, List.flatMap_cons, List.flatMap_nil, List.append_nil]
            exact hevs.map toStream
          | succ k =>
            rw [List.getElem?_cons_succ] at hk
            have hi := List.mem_of_getElem? hk
            have hne : i ≠ j := by
              rintro rfl
              exact hj hi
            refine .of_fresh ?_ _
            simp only [Function.update_of_ne hne]
            exact hfresh i (List.mem_cons_of_mem _ hi)
      · -- the request is answered, and what follows is about later ones
        rw [List.foldl_append, foldl_deliver_events, List.foldl_cons,
          Record.deliver_terminal rfl (isTerminal_replyOf r), hevents, List.nil_append]
        have hne : ∀ i ∈ later, i ≠ j := by
          rintro i hi rfl
          exact hj hi
        have hfresh' : ∀ i ∈ later,
            Function.update events j (c.accepted.map toStream) i = [] ∧
              Function.update answers j (some (replyOf r)) i = none := by
          intro i hi
          rw [Function.update_of_ne (hne i hi), Function.update_of_ne (hne i hi)]
          exact hfresh i (List.mem_cons_of_mem _ hi)
        obtain ⟨hother, hkept⟩ := ih hlater hfresh' hcs.tail hpre
        constructor
        · intro i hi
          obtain ⟨hij, hi⟩ := not_or.mp (List.mem_cons.not.mp hi)
          obtain ⟨he, ha⟩ := hother i hi
          exact ⟨he.trans (Function.update_of_ne hij ..), ha.trans (Function.update_of_ne hij ..)⟩
        · intro k i hk
          cases k with
          | zero =>
            obtain rfl : j = i := by simpa using hk
            obtain ⟨he, ha⟩ := hother j hj
            rw [Function.update_self] at he ha
            exact .answered hr ha he
          | succ k =>
            rw [List.getElem?_cons_succ] at hk ⊢
            exact hkept k i hk

/-! ### Requests and frames in turn -/

section Turns

variable {cs : List SlotCall} {asked : List ℕ} {oob pre : List ServerMessage}
  (hcount : cs.length ≤ asked.length) (hoob : ∀ f ∈ oob, f.isOutOfBand = true)

include hcount hoob

/-- A frame that a handler writes belongs to a request that is not answered, if it belongs to
any. -/
lemma unanswered_ne_nil {f : ServerMessage} (hf : f.isOutOfBand = false)
    (h : pre ++ [f] <+: cs.flatMap SlotCall.frames ++ oob) :
    (pre.foldl Record.deliver (Record.start asked)).unanswered ≠ [] := by
  have hlt := countP_lt_of_prefix hoob hf h
  rw [Record.unanswered_foldl, ne_eq, List.drop_eq_nil_iff, not_le]
  exact hlt.trans_le hcount

/-- The frames written so far say the same when one more request has been made. -/
lemma foldl_deliver_ask (h : pre <+: cs.flatMap SlotCall.frames ++ oob) (i : ℕ) :
    pre.foldl Record.deliver (Record.start (asked ++ [i])) =
      (pre.foldl Record.deliver (Record.start asked)).ask i := by
  induction pre using List.reverseRecOn with
  | nil => rfl
  | append_singleton pre f ih =>
    rw [List.foldl_append, List.foldl_append, ih ((List.prefix_append _ _).trans h)]
    refine Record.ask_deliver ?_ i
    cases hf : f.isOutOfBand with
    | true => exact .inr rfl
    | false => exact .inl (unanswered_ne_nil hcount hoob hf h)

end Turns

end ModelApi.Link
