import ModelApi.Client.Sync

/-!
# The mutex of the client

Whatever the reads and writes meet, at most one call is past the mutex, and a call that has entered
a method gets past it only while no other call is.
-/

namespace ModelApi.Client

open Lib

/-- A call of the updated table is the new one, or was there before. -/
lemma State.setCall_cases {s : State} {i j : ℕ} {c d : Call}
    (hj : (s.setCall i c).calls j = some d) : j = i ∧ d = c ∨ j ≠ i ∧ s.calls j = some d := by
  by_cases hji : j = i
  · subst hji
    exact .inl ⟨rfl, (Option.some.inj ((Function.update_self j _ s.calls).symm.trans hj)).symm⟩
  · exact .inr ⟨hji, (Function.update_of_ne hji ..).symm.trans hj⟩

/-- A call past the mutex is the one that the lock names, and a panic has given the lock back. -/
structure Exclusive (s : State) : Prop where
  holder : ∀ i c, s.calls i = some c → c.pc = .holding ∨ c.pc = .reading → s.lock = some i
  poisoned : s.poisoned = true → s.lock = none

namespace Exclusive

variable {s : State}

/-- A call that now holds the mutex is the one that the lock names. -/
lemma setCall (h : Exclusive s) {i : ℕ} {c : Call}
    (hlock : c.pc = .holding ∨ c.pc = .reading → s.lock = some i) :
    Exclusive (s.setCall i c) where
  holder j d hj hpd := by
    rcases State.setCall_cases hj with ⟨rfl, rfl⟩ | ⟨-, hj⟩
    · exact hlock hpd
    · exact h.holder j d hj hpd
  poisoned := h.poisoned

/-- The mutex is free when its holder has returned. -/
lemma release (h : Exclusive s) {i : ℕ} (hlock : ∀ j, s.lock = some j → j = i) (c : Call)
    (r : Result) : Exclusive (s.release i c r) where
  holder j d hj hpd := by
    rcases State.setCall_cases hj with ⟨rfl, rfl⟩ | ⟨hji, hj⟩
    · rcases hpd with hpd | hpd <;> cases hpd
    · exact absurd (hlock j (h.holder j d hj hpd)) hji
  poisoned _ := rfl

lemma release_holder (h : Exclusive s) {i : ℕ} {c : Call} (hi : s.calls i = some c)
    (hpc : c.pc = .holding ∨ c.pc = .reading) (c' : Call) (r : Result) :
    Exclusive (s.release i c' r) := by
  apply h.release
  intro j hj
  exact Option.some.inj (hj.symm.trans (h.holder i c hi hpc))

lemma init : Exclusive State.init where
  holder i c hi _ := by cases hi
  poisoned _ := rfl

/-- Only one call is past the mutex. -/
lemma eq_of_past (h : Exclusive s) {i j : ℕ} {c d : Call} (hi : s.calls i = some c)
    (hpc : c.pc = .holding ∨ c.pc = .reading) (hj : s.calls j = some d)
    (hpd : d.pc = .holding ∨ d.pc = .reading) : j = i :=
  Option.some.inj ((h.holder j d hj hpd).symm.trans (h.holder i c hi hpc))

end Exclusive

/-! ### Who moves -/

/-- What lets call `i` go on to `c'`. -/
inductive Moves (s : State) (i : ℕ) (c' : Call) : Prop where
  | enters (h : s.calls i = none)
  /-- the mutex is free -/
  | locks {c : Call} (h : s.calls i = some c) (hpc : c.pc = .entered) (hfree : s.lock = none)
  /-- it is past the mutex, and reads or returns -/
  | past {c : Call} (h : s.calls i = some c) (hpc : c.pc = .holding ∨ c.pc = .reading)
    (hpc' : c'.pc = .reading ∨ ∃ r, c'.pc = .done r)

lemma Moves.not_done {s : State} {i : ℕ} {c c' : Call} {r : Result} (hi : s.calls i = some c)
    (hpc : c.pc = .done r) : ¬ Moves s i c' := by
  rintro (h | ⟨h, hpc', -⟩ | ⟨h, hpc', -⟩)
  · rw [hi] at h
    cases h
  · obtain rfl := Option.some.inj (hi.symm.trans h)
    rw [hpc] at hpc'
    cases hpc'
  · obtain rfl := Option.some.inj (hi.symm.trans h)
    rw [hpc] at hpc'
    rcases hpc' with hpc' | hpc' <;> cases hpc'

/-- While one call is past the mutex, another one that has entered a method does not move. -/
lemma Exclusive.not_moves {s : State} (h : Exclusive s) {i j : ℕ} {c d d' : Call}
    (hi : s.calls i = some c) (hpc : c.pc = .holding ∨ c.pc = .reading) (hj : s.calls j = some d)
    (hpd : d.pc = .entered) : ¬ Moves s j d' := by
  rintro (hnone | ⟨-, -, hfree⟩ | ⟨hj', hpd', -⟩)
  · rw [hj] at hnone
    cases hnone
  · rw [h.holder i c hi hpc] at hfree
    cases hfree
  · obtain rfl := Option.some.inj (hj.symm.trans hj')
    rw [hpd] at hpd'
    rcases hpd' with hpd' | hpd' <;> cases hpd'

/-! ### Steps -/

variable [ToString BincodeError]

lemma Exclusive.step {s t : State} {l : Label} (h : Exclusive s) (hst : Step s l t) :
    Exclusive t := by
  cases hst with
  | call i op hi =>
    apply h.setCall
    rintro (hpc | hpc) <;> cases hpc
  | @lock i c hi hpc hfree hp =>
    have hholder : ∀ j d, (s.setCall i { c with pc := .holding }).calls j = some d →
        d.pc = .holding ∨ d.pc = .reading → some i = some j := by
      intro j d hj hpd
      rcases State.setCall_cases hj with ⟨rfl, rfl⟩ | ⟨-, hj⟩
      · rfl
      · have hlock := h.holder j d hj hpd
        rw [hfree] at hlock
        cases hlock
    exact ⟨hholder, fun hp' => absurd (hp.symm.trans hp') nofun⟩
  | lockPoisoned hi hpc hfree hp =>
    apply h.release
    intro j hj
    rw [hfree] at hj
    cases hj
  | encodeFails hi hpc => exact h.release_holder hi (.inl hpc) _ _
  | writeFails hi hpc =>
    have hreturned := h.release_holder hi (.inl hpc)
    exact ⟨(hreturned _ _).holder, fun _ => rfl⟩
  | @writeInference i c _ hi hpc =>
    have hheld : Exclusive (s.setCall i { c with pc := .reading }) :=
      h.setCall fun _ => h.holder i c hi (.inl hpc)
    exact ⟨hheld.holder, hheld.poisoned⟩
  | writeShutdown hi hpc => exact h.setCall fun _ => h.holder _ _ hi (.inl hpc)
  | writeCancel hi hpc => exact h.release_holder hi (.inl hpc) _ _
  | @readEvent i c _ _ _ _ ev hi hpc =>
    have hheld : Exclusive (s.setCall i { c with received := c.received ++ [ev] }) :=
      h.setCall fun _ => h.holder i c hi (.inr hpc)
    exact ⟨hheld.holder, hheld.poisoned⟩
  | readPanics hi hpc =>
    have hreturned := h.release_holder hi (.inr hpc)
    exact ⟨(hreturned _ _).holder, fun _ => rfl⟩
  | readFinish hi hpc =>
    have hreturned := h.release_holder hi (.inr hpc)
    exact ⟨(hreturned _ _).holder, fun _ => rfl⟩
  | _ => exact ⟨h.holder, h.poisoned⟩

/-- Mutual exclusion, in every run. -/
theorem Exclusive.of_reachable {s : State} (h : connection.Reachable s) : Exclusive s := by
  refine h.invariant ?_ ?_
  · rintro _ rfl
    exact .init
  · rintro _ _ ⟨l, hst⟩ hs
    exact hs.step hst

/-- A step of the connection moves one call at most. -/
lemma Step.moves {s t : State} {l : Label} (hst : Step s l t) :
    t.calls = s.calls ∨ ∃ i c', t.calls = (s.setCall i c').calls ∧ Moves s i c' := by
  cases hst with
  | call i op h => exact .inr ⟨_, _, rfl, .enters h⟩
  | lock h hpc hfree => exact .inr ⟨_, _, rfl, .locks h hpc hfree⟩
  | lockPoisoned h hpc hfree => exact .inr ⟨_, _, rfl, .locks h hpc hfree⟩
  | encodeFails h hpc => exact .inr ⟨_, _, rfl, .past h (.inl hpc) (.inr ⟨_, rfl⟩)⟩
  | writeFails h hpc => exact .inr ⟨_, _, rfl, .past h (.inl hpc) (.inr ⟨_, rfl⟩)⟩
  | writeInference h hpc => exact .inr ⟨_, _, rfl, .past h (.inl hpc) (.inl rfl)⟩
  | writeShutdown h hpc => exact .inr ⟨_, _, rfl, .past h (.inl hpc) (.inl rfl)⟩
  | writeCancel h hpc => exact .inr ⟨_, _, rfl, .past h (.inl hpc) (.inr ⟨_, rfl⟩)⟩
  | readEvent h hpc => exact .inr ⟨_, _, rfl, .past h (.inr hpc) (.inl hpc)⟩
  | readPanics h hpc => exact .inr ⟨_, _, rfl, .past h (.inr hpc) (.inr ⟨_, rfl⟩)⟩
  | readFinish h hpc => exact .inr ⟨_, _, rfl, .past h (.inr hpc) (.inr ⟨_, rfl⟩)⟩
  | readOn | serveEvent | serveTerminal | serveOutOfBand | serveStray | close => exact .inl rfl

/-- A call stays where it is unless something lets it go on. -/
lemma Step.calls_eq {s t : State} {l : Label} (hst : Step s l t) {i : ℕ}
    (h : ∀ c', ¬ Moves s i c') : t.calls i = s.calls i := by
  rcases hst.moves with heq | ⟨j, c', heq, hmoves⟩
  · rw [heq]
  · rw [heq]
    exact Function.update_of_ne (by rintro rfl; exact h c' hmoves) ..

/-- A call past the mutex reads on or returns. -/
lemma Step.past {s t : State} {l : Label} (hst : Step s l t) {i : ℕ} {c : Call}
    (hi : s.calls i = some c) (hpc : c.pc = .reading) :
    ∃ c', t.calls i = some c' ∧ (c'.pc = .reading ∨ ∃ r, c'.pc = .done r) := by
  rcases hst.moves with heq | ⟨j, c', heq, hmoves⟩
  · exact ⟨c, by rw [heq, hi], .inl hpc⟩
  · by_cases hij : i = j
    · subst hij
      refine ⟨c', by rw [heq]; exact Function.update_self .., ?_⟩
      cases hmoves with
      | enters h =>
        rw [hi] at h
        cases h
      | locks h hpc' =>
        obtain rfl := Option.some.inj (hi.symm.trans h)
        rw [hpc] at hpc'
        cases hpc'
      | past _ _ hpc' => exact hpc'
    · exact ⟨c, by rw [heq]; exact (Function.update_of_ne hij ..).trans hi, .inl hpc⟩

/-- As long as a call reads, a call that entered a method behind it stays at the mutex. -/
lemma calls_eq_of_steps {s t : State} (hs : connection.Reachable s) {i j : ℕ} {c d : Call}
    (hi : s.calls i = some c) (hpc : c.pc = .reading) (hj : s.calls j = some d)
    (hpd : d.pc = .entered) (hst : connection.Steps s t) :
    (∃ c', t.calls i = some c' ∧ c'.pc = .reading) ∧ t.calls j = some d ∨
      ∃ c' r, t.calls i = some c' ∧ c'.pc = .done r := by
  induction hst with
  | refl => exact .inl ⟨⟨c, hi, hpc⟩, hj⟩
  | tail hst hlast ih =>
    obtain ⟨l, hlast⟩ := hlast
    rcases ih with ⟨⟨c', hi, hpc⟩, hj⟩ | ⟨c', r, hi, hpc⟩
    · have hexclusive := Exclusive.of_reachable (hs.steps hst)
      obtain ⟨c'', hi', hpc' | ⟨r, hpc'⟩⟩ := hlast.past hi hpc
      · refine .inl ⟨⟨c'', hi', hpc'⟩, ?_⟩
        rw [hlast.calls_eq fun _ => hexclusive.not_moves hi (.inr hpc) hj hpd, hj]
      · exact .inr ⟨c'', r, hi', hpc'⟩
    · exact .inr ⟨c', r, by rw [hlast.calls_eq fun _ => Moves.not_done hi hpc, hi], hpc⟩

end ModelApi.Client
