import ModelApi.LiteRt.Slot

/-!
# The mutexes of the slot

The session map, the cache and the cancel token are each behind a mutex of their own. `Step` takes a
critical section of a call as one step. Here a call locks the mutex, does what is to be done behind
it and unlocks it again, in three steps with those of other calls in between: the mutex of the
cache, for one, stays locked while a cached conversation is cloned. The same states of the slot are
reached.
-/

namespace ModelApi.LiteRt

open Lib

inductive Mutex where
  | sessions
  | prefixCache
  | cancelToken
  deriving DecidableEq, Repr

/-- Who can hold a mutex: a call, or the thread that runs `cancel_in_flight` on a signal. -/
inductive Owner where
  | call (i : ℕ)
  | watcher
  deriving DecidableEq, Repr

/-- The mutex that a call has to hold in its next step. -/
def Pc.needs (req : InferenceRequest) : Pc → Option Mutex
  | .entered            =>
    match inputToTurns req.input, req.session with
    | .ok (_ :: _), .persistent _ => some .sessions
    | _, _                        => none
  | .pinRead _          => some .prefixCache
  | .missed             => none
  | .ready _ n          =>
    if sendableContents ((turnsOf req).drop n) = [] then none else some .cancelToken
  | .sending _ [] _     => some .cancelToken
  | .sending _ (_ :: _) _ => none
  | .unwinding _        => some .cancelToken
  | .generated _ _      => none
  | .recloned _ _ _     => some .prefixCache
  | .inserted _ _ _     =>
    match req.session with
    | .persistent _ => some .sessions
    | .stateless    => none
  | .done _             => none

/-- The slot, the guard that each call holds, and the holder of each mutex. -/
structure LockedState where
  slot : State
  guards : ℕ → Option Mutex
  holder : Mutex → Option Owner

namespace LockedState

/-- No mutex is locked. -/
def free (s : State) : LockedState := ⟨s, fun _ => none, fun _ => none⟩

/-- Call `i` has locked `m`. -/
def lock (s : LockedState) (i : ℕ) (m : Mutex) : LockedState :=
  { s with
    guards := Function.update s.guards i (some m)
    holder := Function.update s.holder m (some (.call i)) }

/-- Call `i` has unlocked `m`. -/
def unlock (s : LockedState) (i : ℕ) (m : Mutex) : LockedState :=
  { s with
    guards := Function.update s.guards i none
    holder := Function.update s.holder m none }

/-- Call `i` has come to `pc'`. -/
def work (s : LockedState) (i : ℕ) (req : InferenceRequest) (sh' : Shared) (pc' : Pc) :
    LockedState :=
  { s with slot := ⟨sh', Function.update s.slot.calls i (some ⟨req, pc'⟩)⟩ }

variable (s : LockedState) {i j : ℕ} {m : Mutex}

@[simp] lemma guards_lock : (s.lock i m).guards i = some m := Function.update_self ..

@[simp] lemma holder_lock : (s.lock i m).holder m = some (.call i) := Function.update_self ..

@[simp] lemma guards_unlock : (s.unlock i m).guards i = none := Function.update_self ..

lemma guards_lock_of_ne (h : j ≠ i) : (s.lock i m).guards j = s.guards j :=
  Function.update_of_ne h ..

lemma guards_unlock_of_ne (h : j ≠ i) : (s.unlock i m).guards j = s.guards j :=
  Function.update_of_ne h ..

end LockedState

/-- A step of a call, or of the thread that cancels. -/
inductive Acts (cfg : Config) : Owner → LockedState → LockedState → Prop where
  | lock {s : LockedState} {i : ℕ} {c : Call} {m : Mutex} (hi : s.slot.calls i = some c)
      (hneeds : c.pc.needs c.req = some m) (hguard : s.guards i = none)
      (hfree : s.holder m = none) :
      Acts cfg (.call i) s (s.lock i m)
  /-- behind the mutex, if one is needed -/
  | work {s : LockedState} {i : ℕ} {req : InferenceRequest} {pc pc' : Pc} {sh' : Shared}
      (hi : s.slot.calls i = some ⟨req, pc⟩) (hguard : s.guards i = pc.needs req)
      (hstep : CallStep cfg i req s.slot.shared pc sh' pc') :
      Acts cfg (.call i) s (s.work i req sh' pc')
  /-- the guard goes out of scope -/
  | unlock {s : LockedState} {i : ℕ} {c : Call} {m : Mutex} (hi : s.slot.calls i = some c)
      (hguard : s.guards i = some m) (hpast : c.pc.needs c.req ≠ some m) :
      Acts cfg (.call i) s (s.unlock i m)
  | cancelled {s : LockedState} (hheld : s.holder .cancelToken = some .watcher) :
      Acts cfg .watcher s { s with holder := Function.update s.holder .cancelToken none }

inductive LockedStep (cfg : Config) : LockedState → LockedState → Prop where
  | tick (s : LockedState) (d : ℕ) :
      LockedStep cfg s { s with
        slot := { s.slot with shared := { s.slot.shared with now := s.slot.shared.now + d } } }
  | arrive (s : LockedState) (i : ℕ) (req : InferenceRequest) (h : s.slot.calls i = none) :
      LockedStep cfg s { s with
        slot := { s.slot with calls := Function.update s.slot.calls i (some ⟨req, .entered⟩) } }
  /-- a signal, on which `cancel_in_flight` locks the token -/
  | signal (s : LockedState) (hfree : s.holder .cancelToken = none) :
      LockedStep cfg s { s with
        holder := Function.update s.holder .cancelToken (some .watcher) }
  | act {s t : LockedState} (o : Owner) (h : Acts cfg o s t) : LockedStep cfg s t

/-- The slot with its mutexes as a transition system. -/
def locked (cfg : Config) : Machine LockedState where
  init s := s = .free State.init
  step := LockedStep cfg

variable {cfg : Config} {s t : LockedState} {o : Owner} {i : ℕ} {c : Call} {m : Mutex}

/-! ### The steps of the slot -/

/-- A step is a step of the slot, or leaves the slot as it is. -/
lemma LockedStep.slot (h : LockedStep cfg s t) : t.slot = s.slot ∨ Step cfg s.slot t.slot := by
  cases h with
  | tick d => exact .inr (.tick s.slot d)
  | arrive i req hi => exact .inr (.arrive s.slot i req hi)
  | signal => exact .inl rfl
  | act o h =>
    cases h with
    | lock | unlock | cancelled => exact .inl rfl
    | work hi _ hstep => exact .inr (.call s.slot _ hi hstep)

/-- The mutex of one step is not needed in the next one. -/
lemma needs_of_callStep {req : InferenceRequest} {sh sh' : Shared} {pc pc' : Pc}
    (h : CallStep cfg i req sh pc sh' pc') (hm : pc.needs req = some m) :
    pc'.needs req ≠ some m := by
  cases h with
  | badInput | emptyInput | cloneFails | miss | nothingToSend | unwind | disarm | writePin
  | noPin =>
    nofun
  | create | createFails | send | sendFails | sendPanics | reclone | recloneFails => cases hm
  | readPin hin hne =>
    simp only [Pc.needs] at hm
    split at hm
    · cases hm
      nofun
    · cases hm
  | hit =>
    cases hm
    simp only [Pc.needs]
    split_ifs <;> nofun
  | arm hne =>
    obtain ⟨msg, rest, hmsgs⟩ := List.exists_cons_of_ne_nil hne
    rw [hmsgs]
    nofun
  | insert =>
    cases hm
    simp only [Pc.needs]
    split <;> nofun

/-- Where no mutex is locked, a call can take its next step and leave none locked. -/
lemma steps_free_call {u : State} {req : InferenceRequest} {pc pc' : Pc} {sh' : Shared}
    (hi : u.calls i = some ⟨req, pc⟩) (hstep : CallStep cfg i req u.shared pc sh' pc') :
    (locked cfg).Steps (.free u) (.free ⟨sh', Function.update u.calls i (some ⟨req, pc'⟩)⟩) := by
  cases hneeds : pc.needs req with
  | none => exact .single (.act _ (.work hi hneeds.symm hstep))
  | some m =>
    have hlock : LockedStep cfg (.free u) _ := .act _ (.lock hi hneeds rfl rfl)
    have hguard : ((LockedState.free u).lock i m).guards i = some m := LockedState.guards_lock _
    have hwork : LockedStep cfg ((LockedState.free u).lock i m) _ :=
      .act _ (.work hi (hguard.trans hneeds.symm) hstep)
    have hunlock : LockedStep cfg (((LockedState.free u).lock i m).work i req sh' pc') _ :=
      .act _ (.unlock (Function.update_self ..) hguard (needs_of_callStep hstep hneeds))
    have hfree : (((LockedState.free u).lock i m).work i req sh' pc').unlock i m =
        .free ⟨sh', Function.update u.calls i (some ⟨req, pc'⟩)⟩ := by
      simp [LockedState.lock, LockedState.work, LockedState.unlock, LockedState.free]
    rw [hfree] at hunlock
    exact .head hlock (.head hwork (.single hunlock))

/-- Every run of the slot is a run with mutexes. -/
theorem steps_free {u v : State} (h : (slot cfg).Steps u v) :
    (locked cfg).Steps (.free u) (.free v) := by
  induction h with
  | refl => exact .refl
  | tail _ hst ih =>
    refine ih.trans ?_
    cases hst with
    | tick d => exact .single (.tick _ d)
    | arrive i req hi => exact .single (.arrive _ i req hi)
    | call i hi hstep => exact steps_free_call hi hstep

end ModelApi.LiteRt
