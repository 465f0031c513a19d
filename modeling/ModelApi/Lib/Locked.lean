import ModelApi.Lib.Transition

/-!
# State behind a mutex

Any number of calls work on one shared state, each while it holds a mutex and each in any number of
turns. In every interleaving the calls that have returned are what the same calls return when they
are made one after the other, in the order in which they returned.
-/

namespace ModelApi.Lib

/-- What a call does while it holds the mutex: where it starts, and one turn on the shared state, in
which it goes on or returns. -/
structure Section (σ ρ κ β : Type) where
  start : ρ → κ
  turn : κ → σ → (κ ⊕ β) × σ

namespace Section

variable {σ ρ κ β : Type} (S : Section σ ρ κ β)

/-! ### One call after the other -/

/-- From `k` on, a call that finds `s` returns `b` and leaves `t`. -/
inductive Runs : κ → σ → β → σ → Prop where
  | last {k : κ} {s t : σ} {b : β} (h : S.turn k s = (.inr b, t)) : Runs k s b t
  | next {k k' : κ} {s s' t : σ} {b : β} (h : S.turn k s = (.inl k', s')) (hrest : Runs k' s' b t) :
      Runs k s b t

/-- The calls `history`, one after the other, take `s` to `t`. -/
inductive Serial : List (ρ × β) → σ → σ → Prop where
  | nil (s : σ) : Serial [] s s
  | append {history : List (ρ × β)} {s t u : σ} {r : ρ} {b : β} (h : Serial history s t)
      (hrun : S.Runs (S.start r) t b u) : Serial (history ++ [(r, b)]) s u

variable {S}

/-- A call returns in one way. -/
lemma Runs.unique {k : κ} {s t t' : σ} {b b' : β} (h : S.Runs k s b t) (h' : S.Runs k s b' t') :
    b = b' ∧ t = t' := by
  induction h with
  | last h =>
    cases h' with
    | last h' =>
      rw [h] at h'
      cases h'
      exact ⟨rfl, rfl⟩
    | next h' =>
      rw [h] at h'
      cases h'
  | next h hrest ih =>
    cases h' with
    | last h' =>
      rw [h] at h'
      cases h'
    | next h' hrest' =>
      rw [h] at h'
      cases h'
      exact ih hrest'

lemma Serial.split {before later : List (ρ × β)} {s u : σ} (h : S.Serial (before ++ later) s u) :
    ∃ t, S.Serial before s t ∧ S.Serial later t u := by
  generalize hcalls : before ++ later = calls at h
  induction h generalizing later with
  | nil s =>
    obtain ⟨rfl, rfl⟩ := List.append_eq_nil_iff.mp hcalls
    exact ⟨s, .nil s, .nil s⟩
  | @append calls s t u r b h hrun ih =>
    rcases List.eq_nil_or_concat' later with rfl | ⟨later, last, rfl⟩
    · rw [List.append_nil] at hcalls
      subst hcalls
      exact ⟨u, h.append hrun, .nil u⟩
    · rw [← List.append_assoc] at hcalls
      obtain ⟨hinit, hlast⟩ := List.append_inj' hcalls rfl
      cases hlast
      obtain ⟨v, hbefore, hlater⟩ := ih hinit
      exact ⟨v, hbefore, hlater.append hrun⟩

/-! ### Calls at the same time -/

/-- Where a call is. -/
inductive Call (ρ β : Type) where
  | waiting (r : ρ)
  /-- it holds the mutex -/
  | inside (r : ρ)
  | returned (r : ρ) (b : β)

/-- What the call asks for. -/
def Call.arg : Call ρ β → ρ
  | waiting r    => r
  | inside r     => r
  | returned r _ => r

structure State (σ ρ κ β : Type) where
  shared : σ
  /-- the call that holds the mutex, and where it is -/
  holder : Option (ℕ × κ)
  calls : ℕ → Option (Call ρ β)
  /-- the calls that have returned, in this order -/
  served : List (ℕ × ρ × β)

variable (S)

/-- No call has been made. -/
def State.start (s₀ : σ) : State σ ρ κ β := ⟨s₀, none, fun _ => none, []⟩

/-- A call gets in line for the mutex. -/
def State.call (s : State σ ρ κ β) (i : ℕ) (r : ρ) : State σ ρ κ β :=
  { s with calls := Function.update s.calls i (some (.waiting r)) }

/-- A call takes the mutex, takes a turn, or returns and gives the mutex back. -/
inductive Work : State σ ρ κ β → State σ ρ κ β → Prop where
  | lock {s : State σ ρ κ β} {i : ℕ} {r : ρ} (hi : s.calls i = some (.waiting r))
      (hfree : s.holder = none) :
      Work s { s with
        holder := some (i, S.start r), calls := Function.update s.calls i (some (.inside r)) }
  | turn {s : State σ ρ κ β} {i : ℕ} {k k' : κ} {shared : σ} (hi : s.holder = some (i, k))
      (hturn : S.turn k s.shared = (.inl k', shared)) :
      Work s { s with shared := shared, holder := some (i, k') }
  | unlock {s : State σ ρ κ β} {i : ℕ} {r : ρ} {k : κ} {b : β} {shared : σ}
      (hi : s.calls i = some (.inside r)) (hholder : s.holder = some (i, k))
      (hturn : S.turn k s.shared = (.inr b, shared)) :
      Work s { s with
        shared := shared, holder := none
        calls := Function.update s.calls i (some (.returned r b))
        served := s.served ++ [(i, r, b)] }

inductive Step : State σ ρ κ β → State σ ρ κ β → Prop where
  | call {s : State σ ρ κ β} (i : ℕ) (r : ρ) (hi : s.calls i = none) : Step s (s.call i r)
  | work {s t : State σ ρ κ β} (h : S.Work s t) : Step s t

/-- The calls as a transition system. -/
def machine (s₀ : σ) : Machine (State σ ρ κ β) where
  init s := s = .start s₀
  step := S.Step

/-- The calls that have returned are those of `served`, which are serial. The shared state is what
they have left, changed by the call that holds the mutex. -/
structure Inv (s₀ : σ) (s : State σ ρ κ β) : Prop where
  serial : ∃ t, S.Serial (s.served.map Prod.snd) s₀ t ∧ (s.holder = none → s.shared = t) ∧
    ∀ i k, s.holder = some (i, k) → ∃ r, s.calls i = some (.inside r) ∧
      ∀ b u, S.Runs k s.shared b u → S.Runs (S.start r) t b u
  inside : ∀ i r, s.calls i = some (.inside r) → ∃ k, s.holder = some (i, k)
  returned : ∀ i r b, s.calls i = some (.returned r b) ↔ (i, r, b) ∈ s.served
  nodup : (s.served.map Prod.fst).Nodup

variable {S} {s₀ : σ} {s t : State σ ρ κ β}

lemma Inv.served_calls (h : S.Inv s₀ s) {i : ℕ} (hi : i ∈ s.served.map Prod.fst) :
    ∃ r b, s.calls i = some (.returned r b) := by
  obtain ⟨⟨j, r, b⟩, hmem, rfl⟩ := List.mem_map.mp hi
  exact ⟨r, b, (h.returned j r b).mpr hmem⟩

lemma update_cases {γ : Type} {f : ℕ → Option γ} {i j : ℕ} {v c : γ}
    (h : Function.update f i (some v) j = some c) : (j = i ∧ c = v) ∨ (j ≠ i ∧ f j = some c) := by
  by_cases hji : j = i
  · subst hji
    rw [Function.update_self] at h
    exact .inl ⟨rfl, (Option.some.inj h).symm⟩
  · exact .inr ⟨hji, (Function.update_of_ne hji ..).symm.trans h⟩

/-- A call that has not returned moves on. -/
lemma Inv.returned_update (h : S.Inv s₀ s) {i : ℕ} {c : Call ρ β}
    (hi : ∀ r b, s.calls i ≠ some (.returned r b)) (hc : ∀ r b, c ≠ .returned r b) (j : ℕ) (r : ρ)
    (b : β) :
    Function.update s.calls i (some c) j = some (.returned r b) ↔ (j, r, b) ∈ s.served := by
  rw [← h.returned]
  by_cases hji : j = i
  · subst hji
    rw [Function.update_self]
    exact ⟨fun heq => absurd (Option.some.inj heq) (hc r b), fun heq => absurd heq (hi r b)⟩
  · rw [Function.update_of_ne hji]

lemma Inv.call (h : S.Inv s₀ s) {i : ℕ} (r : ρ) (hi : s.calls i = none) :
    S.Inv s₀ (s.call i r) := by
  obtain ⟨u, hserial, hfree, hheld⟩ := h.serial
  have hne : ∀ r b, s.calls i ≠ some (.returned r b) := by simp [hi]
  refine ⟨⟨u, hserial, hfree, fun j k hj => ?_⟩, fun j r' hj => ?_, ?_, h.nodup⟩
  · obtain ⟨r', hj', hruns⟩ := hheld j k hj
    have hji : j ≠ i := by
      rintro rfl
      rw [hi] at hj'
      cases hj'
    exact ⟨r', (Function.update_of_ne hji ..).trans hj', hruns⟩
  · rcases update_cases hj with ⟨-, hc⟩ | ⟨-, hj⟩
    · cases hc
    · exact h.inside j r' hj
  · exact h.returned_update hne (by simp)

lemma Inv.work (h : S.Inv s₀ s) (hst : S.Work s t) : S.Inv s₀ t := by
  obtain ⟨u, hserial, hfree, hheld⟩ := h.serial
  cases hst with
  | @lock i r hi hnone =>
    have hne : ∀ r b, s.calls i ≠ some (.returned r b) := by simp [hi]
    refine ⟨⟨u, hserial, fun hholder => by simp at hholder, fun j k hj => ?_⟩,
      fun j r' hj => ?_, ?_,
      h.nodup⟩
    · cases hj
      refine ⟨r, Function.update_self .., fun b v hruns => ?_⟩
      rwa [hfree hnone] at hruns
    · rcases update_cases hj with ⟨rfl, -⟩ | ⟨-, hj⟩
      · exact ⟨_, rfl⟩
      · obtain ⟨k, hk⟩ := h.inside j r' hj
        rw [hnone] at hk
        cases hk
    · exact h.returned_update hne (by simp)
  | @turn i k k' shared hi hturn =>
    obtain ⟨r, hcall, hruns⟩ := hheld i k hi
    refine ⟨⟨u, hserial, fun hholder => by simp at hholder, fun j k'' hj => ?_⟩, fun j r' hj => ?_,
      h.returned, h.nodup⟩
    · cases hj
      exact ⟨r, hcall, fun b v hrest => hruns b v (.next hturn hrest)⟩
    · obtain ⟨k'', hk''⟩ := h.inside j r' hj
      rw [hi] at hk''
      cases hk''
      exact ⟨k', rfl⟩
  | @unlock i r k b shared hi hholder hturn =>
    have hnew : i ∉ s.served.map Prod.fst := by
      intro hmem
      obtain ⟨r', b', hreturned⟩ := h.served_calls hmem
      rw [hi] at hreturned
      cases hreturned
    obtain ⟨r', hcall, hruns⟩ := hheld i k hholder
    rw [hi] at hcall
    cases hcall
    refine ⟨⟨shared, ?_, fun _ => rfl, fun j k' hj => by simp at hj⟩, fun j r' hj => ?_,
      fun j r' b' => ?_, ?_⟩
    · rw [List.map_append]
      exact hserial.append (hruns b shared (.last hturn))
    · rcases update_cases hj with ⟨-, hc⟩ | ⟨hji, hj⟩
      · cases hc
      · obtain ⟨k', hk'⟩ := h.inside j r' hj
        rw [hholder] at hk'
        cases hk'
        exact absurd rfl hji
    · rw [List.mem_append, List.mem_singleton]
      constructor
      · intro hj
        rcases update_cases hj with ⟨rfl, hc⟩ | ⟨-, hj⟩
        · cases hc
          exact .inr rfl
        · exact .inl ((h.returned j r' b').mp hj)
      · rintro (hmem | heq)
        · have hji : j ≠ i := by
            rintro rfl
            exact hnew (List.mem_map_of_mem hmem)
          exact (Function.update_of_ne hji ..).trans ((h.returned j r' b').mpr hmem)
        · cases heq
          exact Function.update_self ..
    · rw [List.map_append, List.nodup_append]
      refine ⟨h.nodup, List.nodup_singleton _, ?_⟩
      rintro j hj _ hj' rfl
      rw [List.mem_singleton.mp hj'] at hj
      exact hnew hj

lemma Inv.step (h : S.Inv s₀ s) (hst : S.Step s t) : S.Inv s₀ t := by
  cases hst with
  | call i r hi => exact h.call r hi
  | work hst => exact h.work hst

lemma inv_start (s₀ : σ) : S.Inv s₀ (.start s₀ : State σ ρ κ β) := by
  refine ⟨⟨s₀, .nil s₀, fun _ => rfl, fun i k hi => ?_⟩, fun i r hi => ?_, fun i r b => ?_,
    List.nodup_nil⟩
  · cases hi
  · cases hi
  · simp [State.start]

theorem inv_of_reachable (h : (S.machine s₀).Reachable s) : S.Inv s₀ s := by
  refine h.invariant ?_ fun _ _ hst hs => hs.step hst
  rintro _ rfl
  exact inv_start s₀

/-- What has returned stays as it is. -/
lemma served_of_work (hst : S.Work s t) : s.served <+: t.served := by
  cases hst with
  | unlock => exact List.prefix_append _ _
  | lock | turn => exact List.prefix_rfl

/-- A call that moves on has not returned, and asks for the same. -/
lemma calls_of_work (hst : S.Work s t) (i : ℕ) : t.calls i = s.calls i ∨
    ∃ c c', s.calls i = some c ∧ t.calls i = some c' ∧ c'.arg = c.arg ∧
      ∀ r b, c ≠ .returned r b := by
  cases hst with
  | turn => exact .inl rfl
  | @lock j r hj | @unlock j r _ _ _ hj =>
    by_cases hij : i = j
    · subst hij
      exact .inr ⟨_, _, hj, Function.update_self .., rfl, by simp⟩
    · exact .inl (Function.update_of_ne hij ..)

/-! ### Every call can return -/

/-- A call inside comes to its end while the others wait. -/
lemma works_of_runs {i : ℕ} {r : ρ} {k : κ} {b : β} {u : σ} (hholder : s.holder = some (i, k))
    (hi : s.calls i = some (.inside r)) (hruns : S.Runs k s.shared b u) :
    Relation.ReflTransGen S.Work s
      ⟨u, none, Function.update s.calls i (some (.returned r b)), s.served ++ [(i, r, b)]⟩ := by
  generalize hshared : s.shared = shared at hruns
  induction hruns generalizing s with
  | last hturn =>
    subst hshared
    exact .single (.unlock hi hholder hturn)
  | @next k k' _ shared' _ _ hturn hrest ih =>
    subst hshared
    have hsteps := ih (s := { s with shared := shared', holder := some (i, k') }) rfl hi rfl
    exact .head (.turn hholder hturn) hsteps

/-- A call that finds the mutex free. -/
lemma works_of_waiting {i : ℕ} {r : ρ} {b : β} {u : σ} (hi : s.calls i = some (.waiting r))
    (hfree : s.holder = none) (hruns : S.Runs (S.start r) s.shared b u) :
    Relation.ReflTransGen S.Work s
      ⟨u, none, Function.update s.calls i (some (.returned r b)), s.served ++ [(i, r, b)]⟩ := by
  have hst := Work.lock (S := S) hi hfree
  have hsteps := works_of_runs (s := ⟨s.shared, some (i, S.start r),
    Function.update s.calls i (some (.inside r)), s.served⟩) rfl (Function.update_self ..) hruns
  rw [Function.update_idem] at hsteps
  exact .head hst hsteps

/-- Where every call comes to its end, no call gets stuck behind the others. -/
theorem Inv.exists_returned (hends : ∀ k s, ∃ b t, S.Runs k s b t) (h : S.Inv s₀ s) {i : ℕ}
    (hi : s.calls i ≠ none) :
    ∃ t r b, Relation.ReflTransGen S.Work s t ∧ t.calls i = some (.returned r b) := by
  obtain ⟨c, hc⟩ := Option.ne_none_iff_exists'.mp hi
  cases c with
  | returned r b => exact ⟨s, r, b, .refl, hc⟩
  | inside r =>
    obtain ⟨k, hk⟩ := h.inside i r hc
    obtain ⟨b, u, hruns⟩ := hends k s.shared
    exact ⟨_, r, b, works_of_runs hk hc hruns, Function.update_self ..⟩
  | waiting r =>
    cases hholder : s.holder with
    | none =>
      obtain ⟨b, u, hruns⟩ := hends (S.start r) s.shared
      exact ⟨_, r, b, works_of_waiting hc hholder hruns, Function.update_self ..⟩
    | some jk =>
      obtain ⟨_, -, -, hheld⟩ := h.serial
      obtain ⟨r', hj, -⟩ := hheld jk.1 jk.2 hholder
      obtain ⟨b, u, hruns⟩ := hends jk.2 s.shared
      obtain ⟨b', v, hruns'⟩ := hends (S.start r) u
      have hne : i ≠ jk.1 := by
        rintro rfl
        rw [hc] at hj
        cases hj
      have hwaits : Function.update s.calls jk.1 (some (.returned r' b)) i = some (.waiting r) := by
        rw [Function.update_of_ne hne, hc]
      have hsteps := works_of_runs hholder hj hruns
      exact ⟨_, r, b', hsteps.trans (works_of_waiting hwaits rfl hruns'), Function.update_self ..⟩

end Section

end ModelApi.Lib
