import ModelApi.Lib.Fair
import ModelApi.LiteRt.Mutexes
import ModelApi.LiteRt.Serve

/-!
# Calls come to an end

A call waits for the mutexes of the slot while other calls hold them, but it waits for no mutex
while it holds another one. So a mutex that is locked is unlocked again, and each call that gets its
turn ends, within a number of steps that depends on its own turns only.
-/

namespace ModelApi.LiteRt

open Lib

variable {cfg : Config} {i : ℕ} {req : InferenceRequest}

/-! ### What is left to do -/

/-- The number of messages that a request can send at most. -/
def messages (req : InferenceRequest) : ℕ := (sendableContents (turnsOf req)).length

/-- The number of steps that a call can still take. -/
def Pc.left (req : InferenceRequest) : Pc → ℕ
  | .entered          => messages req + 8
  | .pinRead _        => messages req + 7
  | .missed           => messages req + 6
  | .ready _ _        => messages req + 5
  | .sending _ rest _ => rest.length + 4
  | .generated _ _    => 3
  | .recloned _ _ _   => 2
  | .inserted _ _ _   => 1
  | .unwinding _      => 1
  | .done _           => 0

/-- A suffix of the turns has no more messages than all of them. -/
lemma length_sendable_drop_le (req : InferenceRequest) (n : ℕ) :
    (sendableContents ((turnsOf req).drop n)).length ≤ messages req := by
  have hsplit := sendableContents_append ((turnsOf req).take n) ((turnsOf req).drop n)
  rw [List.take_append_drop] at hsplit
  rw [messages, hsplit, List.length_append]
  omega

/-- Every step of a call leaves it less to do. -/
lemma left_lt_of_callStep {sh sh' : Shared} {pc pc' : Pc} (h : CallStep cfg i req sh pc sh' pc') :
    pc'.left req < pc.left req := by
  cases h with
  | arm =>
    have hle := length_sendable_drop_le req
    rw [Pc.left, Pc.left]
    exact Nat.add_lt_add_of_le_of_lt (hle _) (by decide)
  | send | badInput | emptyInput | readPin | hit | cloneFails | miss | create | createFails
  | nothingToSend | sendFails | sendPanics | unwind | disarm | reclone | recloneFails | insert
  | writePin | noPin =>
    simp only [Pc.left, List.length_cons, List.length_nil]
    omega

/-- A call that is not done can go on, whatever the shared state is. -/
lemma exists_callStep (sh : Shared) {pc : Pc} (h : ∀ outcome, pc ≠ .done outcome) :
    ∃ sh' pc', CallStep cfg i req sh pc sh' pc' := by
  cases pc with
  | entered =>
    cases hin : inputToTurns req.input with
    | error e => exact ⟨_, _, .badInput hin⟩
    | ok turns =>
      by_cases hne : turns = []
      · subst hne
        exact ⟨_, _, .emptyInput hin⟩
      · exact ⟨_, _, .readPin hin hne⟩
  | pinRead pin =>
    by_cases hsel : ∃ h n,
        choosePrefix cfg sh.cache sh.now pin (cfg.prefixOf req) = some (h, n) ∧ 0 < n
    · obtain ⟨k, n, hsel, hn⟩ := hsel
      obtain ⟨-, rfl, hlive⟩ := choosePrefix_eq_some hsel
      cases hget : sh.cache.lookup (cfg.key ((cfg.prefixOf req).take n)) with
      | none =>
        rw [liveAt, hget] at hlive
        cases hlive
      | some entry => exact ⟨_, _, .hit hsel hn hget⟩
    · refine ⟨_, _, .miss fun k n hk => ?_⟩
      by_contra hn
      exact hsel ⟨k, n, hk, Nat.pos_of_ne_zero hn⟩
  | missed => exact ⟨_, _, .create⟩
  | ready conv n =>
    by_cases hmsgs : sendableContents ((turnsOf req).drop n) = []
    · exact ⟨_, _, .nothingToSend hmsgs⟩
    · exact ⟨_, _, .arm hmsgs⟩
  | sending conv rest last =>
    cases rest with
    | nil => exact ⟨_, _, .disarm⟩
    | cons msg rest => exact ⟨_, _, .send ""⟩
  | unwinding outcome => exact ⟨_, _, .unwind⟩
  | generated conv last => exact ⟨_, _, .reclone⟩
  | recloned conv toCache last =>
    have hsize : 0 < cfg.cacheSize := lt_max_of_lt_right Nat.one_pos
    exact ⟨_, _, .insert (insertLru_spec hsize ..)⟩
  | inserted conv newHash last =>
    cases hsession : req.session with
    | stateless => exact ⟨_, _, .noPin hsession⟩
    | persistent id => exact ⟨_, _, .writePin hsession⟩
  | done outcome => exact absurd rfl (h outcome)

/-! ### Guards -/

/-- The guards of the calls and the holders of the mutexes are the same, and a call that holds a
guard has begun. -/
structure LockedState.Inv (s : LockedState) : Prop where
  tied : ∀ i m, s.guards i = some m ↔ s.holder m = some (.call i)
  watched : ∀ m, s.holder m = some .watcher → m = .cancelToken
  inside : ∀ i m, s.guards i = some m →
    ∃ c, s.slot.calls i = some c ∧ (c.pc = .entered → c.pc.needs c.req = some m)

section Steps

variable {s t : LockedState} {o : Owner} {c : Call} {m : Mutex}

namespace LockedState.Inv

lemma free (u : State) : (LockedState.free u).Inv := by
  constructor
  · exact fun _ _ => ⟨nofun, nofun⟩
  · nofun
  · nofun

/-- Where the guard of call `i` and the holder of `m` are set together, they stay tied. -/
lemma tied_update (h : s.Inv) {guard : Option Mutex} {o : Option Owner}
    (hboth : guard = some m ↔ o = some (.call i))
    (hguard : ∀ m', m' ≠ m → s.guards i ≠ some m' ∧ guard ≠ some m')
    (hholder : ∀ j, j ≠ i → s.holder m ≠ some (.call j) ∧ o ≠ some (.call j)) (j : ℕ) (m' : Mutex) :
    Function.update s.guards i guard j = some m' ↔
      Function.update s.holder m o m' = some (.call j) := by
  by_cases hji : j = i
  · subst hji
    rw [Function.update_self]
    by_cases hm : m' = m
    · subst hm
      rw [Function.update_self, hboth]
    · rw [Function.update_of_ne hm, ← h.tied]
      exact iff_of_false (hguard m' hm).2 (hguard m' hm).1
  · rw [Function.update_of_ne hji, h.tied]
    by_cases hm : m' = m
    · subst hm
      rw [Function.update_self]
      exact iff_of_false (hholder j hji).1 (hholder j hji).2
    · rw [Function.update_of_ne hm]

/-- The watcher gets no other mutex than that of the token. -/
lemma watched_update (h : s.Inv) {o : Option Owner} (ho : o = some .watcher → m = .cancelToken)
    (m' : Mutex) (hm' : Function.update s.holder m o m' = some .watcher) : m' = .cancelToken := by
  by_cases hm : m' = m
  · subst hm
    rw [Function.update_self] at hm'
    exact ho hm'
  · rw [Function.update_of_ne hm] at hm'
    exact h.watched m' hm'

lemma lock (h : s.Inv) (hi : s.slot.calls i = some c) (hneeds : c.pc.needs c.req = some m)
    (hguard : s.guards i = none) (hfree : s.holder m = none) : (s.lock i m).Inv where
  tied := by
    refine h.tied_update (by simp) (fun m' hm => ⟨?_, ?_⟩) fun j hji => ⟨?_, ?_⟩
    · simp [hguard]
    · simpa using Ne.symm hm
    · simp [hfree]
    · simpa using Ne.symm hji
  watched := h.watched_update nofun
  inside j m' hj := by
    by_cases hji : j = i
    · subst hji
      rw [guards_lock] at hj
      cases hj
      exact ⟨c, hi, fun _ => hneeds⟩
    · rw [guards_lock_of_ne _ hji] at hj
      exact h.inside j m' hj

lemma unlock (h : s.Inv) (hguard : s.guards i = some m) : (s.unlock i m).Inv where
  tied := by
    have hheld := (h.tied i m).mp hguard
    refine h.tied_update (by simp) (fun m' hm => ⟨?_, nofun⟩) fun j hji => ⟨?_, nofun⟩
    · simpa [hguard] using Ne.symm hm
    · simpa [hheld] using Ne.symm hji
  watched := h.watched_update nofun
  inside j m' hj := by
    by_cases hji : j = i
    · subst hji
      rw [guards_unlock] at hj
      cases hj
    · rw [guards_unlock_of_ne _ hji] at hj
      exact h.inside j m' hj

/-- The token passes from no one to the watcher, or back. -/
lemma watch (h : s.Inv) {o : Option Owner} (ho : ∀ i, o ≠ some (.call i))
    (hheld : ∀ i, s.holder .cancelToken ≠ some (.call i)) :
    LockedState.Inv { s with holder := Function.update s.holder .cancelToken o } where
  tied j m' := by
    dsimp only
    by_cases hm : m' = .cancelToken
    · subst hm
      rw [Function.update_self, h.tied]
      exact iff_of_false (hheld j) (ho j)
    · rw [Function.update_of_ne hm, h.tied]
  watched := h.watched_update fun _ => rfl
  inside := h.inside

lemma step (h : s.Inv) (hst : LockedStep cfg s t) : t.Inv := by
  cases hst with
  | tick d => exact ⟨h.tied, h.watched, h.inside⟩
  | arrive i req hi =>
    refine ⟨h.tied, h.watched, fun j m hj => ?_⟩
    obtain ⟨c, hc, hm⟩ := h.inside j m hj
    have hji : j ≠ i := by
      rintro rfl
      rw [hi] at hc
      cases hc
    exact ⟨c, (Function.update_of_ne hji ..).trans hc, hm⟩
  | signal hfree => exact h.watch nofun fun i => by simp [hfree]
  | act o hst =>
    cases hst with
    | lock hi hneeds hguard hfree => exact h.lock hi hneeds hguard hfree
    | unlock hi hguard => exact h.unlock hguard
    | cancelled hheld => exact h.watch nofun fun i => by simp [hheld]
    | @work _ i req pc pc' sh' hi hguard hstep =>
      refine ⟨h.tied, h.watched, fun j m hj => ?_⟩
      by_cases hji : j = i
      · subst hji
        refine ⟨⟨req, pc'⟩, Function.update_self .., fun hentered => ?_⟩
        simp only at hentered
        subst hentered
        exact absurd hstep not_callStep_entered
      · obtain ⟨c, hc, hm⟩ := h.inside j m hj
        exact ⟨c, (Function.update_of_ne hji ..).trans hc, hm⟩

end LockedState.Inv

lemma locked_inv_of_reachable (h : (locked cfg).Reachable s) : s.Inv := by
  refine h.invariant ?_ fun _ _ hst hs => hs.step hst
  rintro _ rfl
  exact .free State.init

/-! ### The steps of one call -/

/-- What call `i` has still to do, where each step of the slot counts for locking, working and
unlocking. -/
def LockedState.left (s : LockedState) (i : ℕ) : ℕ :=
  match s.slot.calls i with
  | none   => 0
  | some c =>
    match s.guards i with
    | none   => 3 * c.pc.left c.req
    | some m =>
      if c.pc.needs c.req = some m then 3 * c.pc.left c.req - 1 else 3 * c.pc.left c.req + 1

lemma left_of_calls (hi : s.slot.calls i = some c) : s.left i =
    match s.guards i with
    | none   => 3 * c.pc.left c.req
    | some m =>
      if c.pc.needs c.req = some m then 3 * c.pc.left c.req - 1 else 3 * c.pc.left c.req + 1 := by
  rw [LockedState.left, hi]

/-- A call that needs a mutex is not done. -/
lemma left_pos_of_needs {pc : Pc} (h : pc.needs req = some m) : 0 < pc.left req := by
  cases pc with
  | done => cases h
  | entered | pinRead | missed | ready | sending | unwinding | generated | recloned | inserted =>
    simp [Pc.left]

lemma left_pos_of_guard (hi : s.slot.calls i = some c) (hguard : s.guards i = some m) :
    0 < s.left i := by
  rw [left_of_calls hi, hguard]
  simp only
  split_ifs with hneeds
  · have hpos := left_pos_of_needs hneeds
    omega
  · omega

/-- A call that has nothing left to do is done and holds no mutex. -/
lemma done_of_left (hi : s.slot.calls i = some c) (h : s.left i = 0) :
    s.guards i = none ∧ ∃ outcome, c.pc = .done outcome := by
  cases hguard : s.guards i with
  | some m => exact absurd h (left_pos_of_guard hi hguard).ne'
  | none =>
    rw [left_of_calls hi, hguard] at h
    refine ⟨rfl, ?_⟩
    cases hpc : c.pc with
    | done outcome => exact ⟨outcome, rfl⟩
    | entered | pinRead | missed | ready | sending | unwinding | generated | recloned | inserted =>
      rw [hpc] at h
      simp [Pc.left] at h

/-- Every step of a call leaves it less to do. -/
lemma left_lt_of_acts (h : Acts cfg (.call i) s t) : t.left i < s.left i := by
  cases h with
  | lock hi hneeds hguard =>
    have hpos := left_pos_of_needs hneeds
    rw [left_of_calls hi, hguard, left_of_calls (s := s.lock i _) hi, LockedState.guards_lock]
    simp only [hneeds, if_true]
    omega
  | @work _ _ req pc pc' sh' hi hguard hstep =>
    have hlt := left_lt_of_callStep hstep
    have hi' : (s.work i req sh' pc').slot.calls i = some ⟨req, pc'⟩ := Function.update_self ..
    have hguard' : (s.work i req sh' pc').guards i = s.guards i := rfl
    rw [left_of_calls hi, left_of_calls hi', hguard', hguard]
    cases hneeds : pc.needs req with
    | none => exact Nat.mul_lt_mul_of_pos_left hlt (by decide)
    | some m =>
      simp only [if_true]
      split_ifs <;> omega
  | unlock hi hguard hpast =>
    rw [left_of_calls hi, hguard, left_of_calls (s := s.unlock i _) hi, LockedState.guards_unlock]
    simp only [if_neg hpast]
    omega

/-- A step is one of call `i`, or leaves it where it is. -/
lemma acts_or_same (hst : LockedStep cfg s t) (hi : s.slot.calls i = some c) :
    Acts cfg (.call i) s t ∨ t.slot.calls i = some c ∧ t.guards i = s.guards i := by
  cases hst with
  | tick | signal => exact .inr ⟨hi, rfl⟩
  | arrive j req hj =>
    have hne : i ≠ j := by
      rintro rfl
      rw [hj] at hi
      cases hi
    exact .inr ⟨(Function.update_of_ne hne ..).trans hi, rfl⟩
  | act o h =>
    by_cases ho : o = .call i
    · subst ho
      exact .inl h
    · right
      cases h with
      | cancelled => exact ⟨hi, rfl⟩
      | @lock _ j _ m hj =>
        have hne : i ≠ j := fun hij => ho (by rw [hij])
        exact ⟨hi, s.guards_lock_of_ne hne⟩
      | @unlock _ j _ m hj =>
        have hne : i ≠ j := fun hij => ho (by rw [hij])
        exact ⟨hi, s.guards_unlock_of_ne hne⟩
      | @work _ j =>
        have hne : i ≠ j := fun hij => ho (by rw [hij])
        exact ⟨(Function.update_of_ne hne ..).trans hi, rfl⟩

lemma left_le_of_step (hst : LockedStep cfg s t) (hi : s.slot.calls i = some c) :
    t.left i ≤ s.left i := by
  rcases acts_or_same hst hi with h | ⟨hi', hguard⟩
  · exact (left_lt_of_acts h).le
  · rw [left_of_calls hi, left_of_calls hi', hguard]

lemma exists_calls_of_step (hst : LockedStep cfg s t) (hi : s.slot.calls i = some c) :
    ∃ pc, t.slot.calls i = some ⟨c.req, pc⟩ := by
  rcases hst.slot with heq | hstep
  · exact ⟨c.pc, by rw [heq, hi]⟩
  · obtain ⟨pc, hi', -⟩ := hstep.calls_before hi
    exact ⟨pc, hi'⟩

/-- A call that does not wait for a mutex can go on. -/
lemma exists_acts_of_guard (hi : s.slot.calls i = some c) (hne : s.left i ≠ 0)
    (hguard : s.guards i = none → c.pc.needs c.req = none) : ∃ t, Acts cfg (.call i) s t := by
  by_cases hsame : s.guards i = c.pc.needs c.req
  · have hdone : ∀ outcome, c.pc ≠ .done outcome := by
      intro outcome hpc
      rw [left_of_calls hi, hsame, hpc] at hne
      exact hne rfl
    obtain ⟨sh', pc', hstep⟩ : ∃ sh' pc', CallStep cfg i c.req s.slot.shared c.pc sh' pc' :=
      exists_callStep s.slot.shared hdone
    exact ⟨_, .work hi hsame hstep⟩
  · cases hheld : s.guards i with
    | none => exact absurd (hheld.trans (hguard hheld).symm) hsame
    | some m =>
      rw [hheld] at hsame
      exact ⟨_, .unlock hi hheld (Ne.symm hsame)⟩

/-- A mutex keeps its holder until it is unlocked. -/
lemma holder_of_step (hst : LockedStep cfg s t) (h : s.holder m = some o) :
    t.holder m = some o ∨ t.holder m = none := by
  have hkeep {m' : Mutex} {o' : Option Owner} (hm : s.holder m' = none ∨ o' = none) :
      Function.update s.holder m' o' m = some o ∨ Function.update s.holder m' o' m = none := by
    by_cases hmm : m = m'
    · subst hmm
      rw [Function.update_self]
      rcases hm with hm | rfl
      · rw [h] at hm
        cases hm
      · exact .inr rfl
    · rw [Function.update_of_ne hmm]
      exact .inl h
  cases hst with
  | tick | arrive => exact .inl h
  | signal hfree => exact hkeep (.inl hfree)
  | act o' hst =>
    cases hst with
    | lock _ _ _ hfree => exact hkeep (.inl hfree)
    | unlock | cancelled => exact hkeep (.inr rfl)
    | work => exact .inl h

lemma holder_of_watcher (h : Acts cfg .watcher s t) : t.holder .cancelToken = none := by
  cases h with
  | cancelled => simp

end Steps

/-! ### Runs -/

/-- No call, and not the thread that cancels, is passed over for ever where it can go on again and
again. -/
def Fair (cfg : Config) (run : ℕ → LockedState) : Prop :=
  ∀ o, StronglyFair (fun n => ∃ t, Acts cfg o (run n) t) fun n => Acts cfg o (run n) (run (n + 1))

section Run

variable {run : ℕ → LockedState} {n₀ : ℕ}

lemma calls_of_run (hrun : (locked cfg).Run run)
    (hi : (run n₀).slot.calls i = some ⟨req, .entered⟩) (k : ℕ) :
    ∃ pc, (run (n₀ + k)).slot.calls i = some ⟨req, pc⟩ := by
  induction k with
  | zero => exact ⟨_, hi⟩
  | succ k ih =>
    obtain ⟨pc, hpc⟩ := ih
    exact exists_calls_of_step (hrun (n₀ + k)) hpc

/-- A mutex that is locked is unlocked again. -/
lemma exists_unlocked (hstart : (locked cfg).Reachable (run 0)) (hrun : (locked cfg).Run run)
    (hfair : Fair cfg run) (m : Mutex) (n : ℕ) : ∃ k, n ≤ k ∧ (run k).holder m = none := by
  by_contra hlocked
  push Not at hlocked
  have hinv := fun k => locked_inv_of_reachable (hrun.reachable hstart k)
  obtain ⟨o, ho⟩ := Option.ne_none_iff_exists'.mp (hlocked n le_rfl)
  -- its holder does not change
  have hkeeps : ∀ k, (run (n + k)).holder m = some o := by
    intro k
    induction k with
    | zero => exact ho
    | succ k ih =>
      exact (holder_of_step (hrun (n + k)) ih).resolve_right
        (hlocked _ (Nat.le_add_right n (k + 1)))
  cases o with
  | watcher =>
    obtain rfl := (hinv n).watched m ho
    obtain ⟨k, hk, hacts⟩ := hfair .watcher (fun k => ⟨n + k, Nat.le_add_left k n, _,
      .cancelled (hkeeps k)⟩) n
    exact hlocked _ (hk.trans k.le_succ) (holder_of_watcher hacts)
  | call i =>
    have hguard : ∀ k, (run (n + k)).guards i = some m :=
      fun k => ((hinv _).tied i m).mpr (hkeeps k)
    have hcalls : ∀ k, ∃ c, (run (n + k)).slot.calls i = some c := fun k => by
      obtain ⟨c, hc, -⟩ := (hinv _).inside i m (hguard k)
      exact ⟨c, hc⟩
    obtain ⟨k, hk⟩ := eventually_zero_of_stronglyFair (fun k => (run (n + k)).left i)
      ((hfair (.call i)).shift n)
      (fun k => by
        obtain ⟨c, hc⟩ := hcalls k
        exact left_le_of_step (hrun (n + k)) hc)
      (fun k hacts => left_lt_of_acts hacts)
      (fun k hne => by
        obtain ⟨c, hc⟩ := hcalls k
        refine ⟨k, le_rfl, exists_acts_of_guard hc hne fun hnone => ?_⟩
        rw [hguard k] at hnone
        cases hnone)
    obtain ⟨c, hc⟩ := hcalls k
    exact (left_pos_of_guard hc (hguard k)).ne' (hk k le_rfl)

/-- A call that is not done gets to go on. -/
lemma exists_acts (hstart : (locked cfg).Reachable (run 0)) (hrun : (locked cfg).Run run)
    (hfair : Fair cfg run) {n : ℕ} {c : Call} (hi : (run n).slot.calls i = some c)
    (hne : (run n).left i ≠ 0) : ∃ k, n ≤ k ∧ ∃ t, Acts cfg (.call i) (run k) t := by
  by_contra hstuck
  push Not at hstuck
  -- it stays where it is
  have hsame : ∀ k, (run (n + k)).slot.calls i = some c ∧
      (run (n + k)).guards i = (run n).guards i := by
    intro k
    induction k with
    | zero => exact ⟨hi, rfl⟩
    | succ k ih =>
      obtain ⟨hc, hguard⟩ := (acts_or_same (hrun (n + k)) ih.1).resolve_left
        (hstuck _ (Nat.le_add_right n k) _)
      exact ⟨hc, hguard.trans ih.2⟩
  by_cases hwaits : (run n).guards i = none ∧ ∃ m, c.pc.needs c.req = some m
  · obtain ⟨hnone, m, hneeds⟩ := hwaits
    obtain ⟨k, hk, hfree⟩ := exists_unlocked hstart hrun hfair m n
    obtain ⟨k, rfl⟩ := Nat.exists_eq_add_of_le hk
    obtain ⟨hc, hguard⟩ := hsame k
    exact hstuck _ hk _ (.lock hc hneeds (hguard.trans hnone) hfree)
  · have hruns : (run n).guards i = none → c.pc.needs c.req = none := by
      intro hnone
      by_contra hneeds
      exact hwaits ⟨hnone, Option.ne_none_iff_exists'.mp hneeds⟩
    obtain ⟨t, ht⟩ : ∃ t, Acts cfg (.call i) (run n) t := exists_acts_of_guard hi hne hruns
    exact hstuck n le_rfl t ht

/-- However the calls interleave and wait for each other, a call that gets its turn ends, and holds
no mutex then. It takes at most three steps for each message of its turns, and twenty-four. -/
theorem done_of_fair (hstart : (locked cfg).Reachable (run 0)) (hrun : (locked cfg).Run run)
    (hfair : Fair cfg run) (hi : (run n₀).slot.calls i = some ⟨req, .entered⟩) :
    (∃ n outcome, ∀ m, n ≤ m → (run m).slot.calls i = some ⟨req, .done outcome⟩ ∧
      (run m).guards i = none) ∧
    ∀ moves : Finset ℕ, (∀ m ∈ moves, Acts cfg (.call i) (run (n₀ + m)) (run (n₀ + m + 1))) →
      moves.card ≤ 3 * (messages req + 8) := by
  have hcalls := calls_of_run hrun hi
  have hstep : ∀ k, (run (n₀ + (k + 1))).left i ≤ (run (n₀ + k)).left i := by
    intro k
    obtain ⟨pc, hc⟩ := hcalls k
    exact left_le_of_step (hrun (n₀ + k)) hc
  constructor
  · obtain ⟨n, hzero⟩ := eventually_zero_of_stronglyFair (fun k => (run (n₀ + k)).left i)
      ((hfair (.call i)).shift n₀) hstep (fun k hacts => left_lt_of_acts hacts) (fun k hne => by
        obtain ⟨pc, hc⟩ := hcalls k
        obtain ⟨k', hk', hacts⟩ := exists_acts hstart hrun hfair hc hne
        obtain ⟨k', rfl⟩ := Nat.exists_eq_add_of_le ((Nat.le_add_right n₀ k).trans hk')
        exact ⟨k', Nat.le_of_add_le_add_left hk', hacts⟩)
    obtain ⟨pc, hc⟩ := hcalls n
    obtain ⟨hguard, outcome, hpc⟩ := done_of_left hc (hzero n le_rfl)
    simp only at hpc
    subst hpc
    have hstays : ∀ k, (run (n₀ + (n + k))).slot.calls i = some ⟨req, .done outcome⟩ ∧
        (run (n₀ + (n + k))).guards i = none := by
      intro k
      induction k with
      | zero => exact ⟨hc, hguard⟩
      | succ k ih =>
        rcases acts_or_same (hrun (n₀ + (n + k))) ih.1 with hacts | ⟨hc', hguard'⟩
        · -- a step of the call would leave less than nothing
          have hlt := left_lt_of_acts hacts
          rw [hzero (n + k) (Nat.le_add_right n k)] at hlt
          exact absurd hlt (Nat.not_lt_zero _)
        · exact ⟨hc', hguard'.trans ih.2⟩
    refine ⟨n₀ + n, outcome, fun m hm => ?_⟩
    obtain ⟨k, rfl⟩ := Nat.exists_eq_add_of_le hm
    rw [Nat.add_assoc]
    exact hstays k
  · intro moves hmoves
    have hcard := card_moves_le (fun k => (run (n₀ + k)).left i) hstep moves fun m hm =>
      left_lt_of_acts (hmoves m hm)
    refine hcard.trans ?_
    simp only [Nat.add_zero]
    rw [left_of_calls hi]
    cases hguard : (run n₀).guards i with
    | none => simp [Pc.left]
    | some m =>
      obtain ⟨c, hc, hneeds⟩ :=
        (locked_inv_of_reachable (hrun.reachable hstart n₀)).inside i m hguard
      obtain rfl := Option.some.inj (hi.symm.trans hc)
      simp only [if_pos (hneeds rfl)]
      exact Nat.sub_le _ _

end Run

/-! ### A call that waits for another one -/

/-- The first request is at `pc₀`, and the one that continues it at `pc₁`. -/
def demoPair (sh : Shared) (pc₀ pc₁ : Pc) : State :=
  callAt (callAt State.init.calls 0 firstRequest sh pc₀).calls 1 continuedRequest sh pc₁

lemma update_demoPair (sh : Shared) (pc₀ pc₀' pc₁ : Pc) :
    Function.update (demoPair sh pc₀ pc₁).calls 0 (some ⟨firstRequest, pc₀'⟩) =
      (demoPair sh pc₀' pc₁).calls := by
  simp only [demoPair, callAt]
  rw [Function.update_comm Nat.one_ne_zero, Function.update_idem]

lemma step_demoPair {sh sh' : Shared} {pc₀ pc₀' pc₁ : Pc}
    (h : CallStep demoConfig 0 firstRequest sh pc₀ sh' pc₀') :
    (slot demoConfig).step (demoPair sh pc₀ pc₁) (demoPair sh' pc₀' pc₁) := by
  have hst : Step demoConfig (demoPair sh pc₀ pc₁) _ := .call _ 0 rfl h
  rwa [update_demoPair] at hst

/-- A state in which all calls are done and no mutex is locked. -/
lemma not_acts_of_done {u : State} (h : ∀ i c, u.calls i = some c → ∃ outcome, c.pc = .done outcome)
    {o : Owner} {t : LockedState} : ¬ Acts cfg o (.free u) t := by
  intro hacts
  cases hacts with
  | lock hi hneeds =>
    obtain ⟨outcome, hpc⟩ := h _ _ hi
    rw [hpc] at hneeds
    cases hneeds
  | work hi _ hstep =>
    obtain ⟨outcome, hpc⟩ := h _ _ hi
    simp only at hpc
    subst hpc
    cases hstep
  | unlock _ hguard => cases hguard
  | cancelled hheld => cases hheld

/-- A run that comes to such a state is fair. -/
lemma fair_of_done {run : ℕ → LockedState} {u : State} {N : ℕ}
    (h : ∀ i c, u.calls i = some c → ∃ outcome, c.pc = .done outcome)
    (hrun : ∀ n, N ≤ n → run n = .free u) : Fair cfg run := by
  intro o henabled
  obtain ⟨n, hn, t, hacts⟩ := henabled N
  rw [hrun n hn] at hacts
  exact absurd hacts (not_acts_of_done h)

/-- A new conversation for the first request, and what it is when it has answered. -/
def demoFresh : Conversation :=
  ⟨demoConfig.systemPrompt firstRequest, demoConfig.samplerForRequest firstRequest, []⟩

def demoAnswered : Conversation := { demoFresh with history := [("hi", "a1")] }

/-- What is shared once the answer is in the cache. -/
def demoCached : Shared :=
  let full := (demoConfig.prefixOf firstRequest).withReply "a1"
  { State.init.shared with
    cache := insertLru demoConfig.cacheSize ∅ (demoConfig.key full)
      ⟨demoAnswered, full.turns.length, 0⟩ }

/-- The first request has locked the cache, and the other one has just arrived. -/
def demoWaiting : LockedState :=
  (LockedState.free (demoPair State.init.shared (.recloned demoAnswered demoAnswered "a1")
    .entered)).lock 0 .prefixCache

lemma reachable_demoWaiting : (locked demoConfig).Reachable demoWaiting := by
  have hfresh : demoConfig.working State.init.shared firstRequest = (demoFresh, 0, ∅) := rfl
  have hgenerated := steps_generated demoModel (slot_takes State.init.calls 0 firstRequest _)
    (.arrive _ 0 firstRequest rfl) hfresh (List.cons_ne_nil _ _)
  have hrecloned := hgenerated.tail (step_callAt .reclone)
  have harrived : (slot demoConfig).Steps State.init (demoPair State.init.shared
      (.recloned demoAnswered demoAnswered "a1") .entered) :=
    hrecloned.tail (.arrive _ 1 continuedRequest rfl)
  exact ⟨_, rfl, (steps_free harrived).tail (.act _ (.lock (i := 0) rfl rfl rfl rfl))⟩

/-- Where the first request has put its answer into the cache, the other one reads it there and both
are answered. -/
lemma steps_demoCached (key : Key) : ∃ u reply conv,
    (slot demoConfig).Steps
        (demoPair demoCached (.inserted demoAnswered key "a1") (.pinRead none)) u ∧
      u.calls 1 = some ⟨continuedRequest, .done (.ok reply conv)⟩ ∧
      ∀ i c, u.calls i = some c → ∃ outcome, c.pc = .done outcome := by
  have hfirst : (slot demoConfig).step
      (demoPair demoCached (.inserted demoAnswered key "a1") (.pinRead none))
      (demoPair demoCached (.done (.ok "a1" demoAnswered)) (.pinRead none)) :=
    step_demoPair (.noPin rfl)
  let others := (callAt State.init.calls 0 firstRequest demoCached
    (.done (.ok "a1" demoAnswered))).calls
  have htakes : Takes (slot demoConfig) demoConfig others 1 continuedRequest demoCached := by
    apply slot_takes
  rcases hworking : demoConfig.working demoCached continuedRequest with ⟨conv, n, cache⟩
  have hcached : (demoConfig.working demoCached continuedRequest).2.1 = 2 := by decide +kernel
  rw [hworking] at hcached
  obtain rfl : n = 2 := hcached
  have hgenerated := steps_of_pinRead demoModel htakes hworking (List.cons_ne_nil _ _)
  refine ⟨_, _, _, .head hfirst (hgenerated.trans (steps_recache htakes)), callAt_self, ?_⟩
  intro i c hi
  by_cases hi₁ : i = 1
  · subst hi₁
    obtain rfl := Option.some.inj (callAt_self.symm.trans hi)
    exact ⟨_, rfl⟩
  · have hfree := (callAt_of_ne hi₁).symm.trans hi
    by_cases hi₀ : i = 0
    · subst hi₀
      obtain rfl := Option.some.inj (callAt_self.symm.trans hfree)
      exact ⟨_, rfl⟩
    · cases (callAt_of_ne hi₀).symm.trans hfree

/-- The other one waits for the cache, and then goes on with what it finds there. -/
lemma steps_demoWaiting : ∃ u reply conv, (locked demoConfig).Steps demoWaiting (.free u) ∧
    u.calls 1 = some ⟨continuedRequest, .done (.ok reply conv)⟩ ∧
    ∀ i c, u.calls i = some c → ∃ outcome, c.pc = .done outcome := by
  let key := demoConfig.key ((demoConfig.prefixOf firstRequest).withReply "a1")
  let read := demoWaiting.work 1 continuedRequest State.init.shared (.pinRead none)
  let written := read.work 0 firstRequest demoCached (.inserted demoAnswered key "a1")
  have hread : LockedStep demoConfig demoWaiting read :=
    .act _ (.work rfl rfl (.readPin rfl (List.cons_ne_nil _ _)))
  have hsize : 0 < demoConfig.cacheSize := by decide
  have hwritten : LockedStep demoConfig read written :=
    .act _ (.work rfl rfl (.insert (insertLru_spec hsize ..)))
  have hunlock : LockedStep demoConfig written (written.unlock 0 .prefixCache) :=
    .act _ (.unlock rfl rfl nofun)
  have hfree : written.unlock 0 .prefixCache =
      .free (demoPair demoCached (.inserted demoAnswered key "a1") (.pinRead none)) := by
    simp [written, read, demoWaiting, LockedState.lock, LockedState.work, LockedState.unlock,
      LockedState.free, demoPair, callAt, Function.update_comm Nat.one_ne_zero]
  rw [hfree] at hunlock
  obtain ⟨u, reply, conv, hsteps, hdone, hall⟩ := steps_demoCached key
  exact ⟨u, reply, conv, .head hread (.head hwritten (.head hunlock (steps_free hsteps))), hdone,
    hall⟩

/-- A further question comes while the answer to the first one is put into the cache. It waits
there, and is answered. -/
theorem done_of_fair_demo : ∃ run : ℕ → LockedState,
    (locked demoConfig).Reachable (run 0) ∧ (locked demoConfig).Run run ∧ Fair demoConfig run ∧
    (run 0).holder .prefixCache = some (.call 0) ∧
    (run 0).slot.calls 1 = some ⟨continuedRequest, .entered⟩ ∧
    (∃ n reply conv, (run n).slot.calls 1 = some ⟨continuedRequest, .done (.ok reply conv)⟩) ∧
    ∃ n outcome, ∀ m, n ≤ m → (run m).slot.calls 1 = some ⟨continuedRequest, .done outcome⟩ ∧
      (run m).guards 1 = none := by
  obtain ⟨u, reply, conv, hsteps, hdone, hall⟩ := steps_demoWaiting
  obtain ⟨run, hstart, hrun, N, hstays⟩ := Machine.exists_run hsteps (.tick _ 0)
  have hreach : (locked demoConfig).Reachable (run 0) := by
    rw [hstart]
    exact reachable_demoWaiting
  have hfair : Fair demoConfig run := fair_of_done hall hstays
  have hi : (run 0).slot.calls 1 = some ⟨continuedRequest, .entered⟩ := by
    rw [hstart]
    exact callAt_self
  refine ⟨run, hreach, hrun, hfair, ?_, hi, ⟨N, reply, conv, ?_⟩,
    (done_of_fair hreach hrun hfair hi).1⟩
  · rw [hstart]
    exact LockedState.holder_lock _
  · rw [hstays N le_rfl]
    exact hdone

end ModelApi.LiteRt
