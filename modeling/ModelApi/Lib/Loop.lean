import Mathlib

/-!
# While loops that may fail

A loop is a body that either goes on with a new state or leaves with a result. It is given a number
of turns: to run out of them is a failure like any other, so that a loop that returns has ended.
-/

namespace ModelApi.Lib

/-- How a computation fails to return. -/
inductive Fault where
  /-- a slice of a text of length `len` whose ends are out of order, out of range or inside a
  character -/
  | slice (start stop len : ℕ)
  /-- an index out of range -/
  | index (i len : ℕ)
  /-- a loop that does not end -/
  | diverges
  deriving DecidableEq, Repr

variable {σ α β : Type}

@[simp] lemma ok_bind (a : α) (f : α → Except Fault β) : (Except.ok a >>= f) = f a := rfl

@[simp] lemma error_bind (e : Fault) (f : α → Except Fault β) :
    (Except.error e >>= f) = .error e := rfl

@[simp] lemma pure_eq_ok (a : α) : (pure a : Except Fault α) = .ok a := rfl

def loop (body : σ → Except Fault (σ ⊕ α)) : ℕ → σ → Except Fault α
  | 0, _        => .error .diverges
  | fuel + 1, s =>
    match body s with
    | .ok (.inl s') => loop body fuel s'
    | .ok (.inr a)  => .ok a
    | .error e      => .error e

variable {body : σ → Except Fault (σ ⊕ α)}

/-- What one turn of a loop does to the outcome `target` of the states in `I`: it leaves with that
outcome, or leads to a state in `I` of the same outcome and of smaller measure `m`. -/
inductive Turns (body : σ → Except Fault (σ ⊕ α)) (I : σ → Prop) (m : σ → ℕ)
    (target : σ → Except Fault α) (s : σ) : Prop where
  | next (s' : σ) (hbody : body s = .ok (.inl s')) (hI : I s') (hlt : m s' < m s)
      (htarget : target s' = target s)
  | done (a : α) (hbody : body s = .ok (.inr a)) (htarget : target s = .ok a)
  | fails (e : Fault) (hbody : body s = .error e) (htarget : target s = .error e)

/-- The rule for loops: with more turns than the measure, the outcome is reached. -/
theorem loop_eq {I : σ → Prop} {m : σ → ℕ} {target : σ → Except Fault α}
    (hturn : ∀ s, I s → Turns body I m target s) {fuel : ℕ} {s : σ} (hI : I s)
    (hfuel : m s < fuel) : loop body fuel s = target s := by
  induction fuel generalizing s with
  | zero => exact absurd hfuel (Nat.not_lt_zero _)
  | succ fuel ih =>
    rw [loop]
    rcases hturn s hI with
      ⟨s', hbody, hI', hlt, htarget⟩ | ⟨a, hbody, htarget⟩ | ⟨e, hbody, htarget⟩
    · simp only [hbody]
      rw [ih hI' (by omega), htarget]
    · simp only [hbody, htarget]
    · simp only [hbody, htarget]

/-- The rule for loops that return: every turn leaves with a result that is as wanted, or keeps the
invariant and makes the measure smaller. -/
theorem loop_returns {I : σ → Prop} {m : σ → ℕ} {Q : α → Prop}
    (hturn : ∀ s, I s → (∃ s', body s = .ok (.inl s') ∧ I s' ∧ m s' < m s) ∨
      ∃ a, body s = .ok (.inr a) ∧ Q a) {fuel : ℕ} {s : σ} (hI : I s) (hfuel : m s < fuel) :
    ∃ a, loop body fuel s = .ok a ∧ Q a := by
  induction fuel generalizing s with
  | zero => exact absurd hfuel (Nat.not_lt_zero _)
  | succ fuel ih =>
    rw [loop]
    rcases hturn s hI with ⟨s', hbody, hI', hlt⟩ | ⟨a, hbody, hQ⟩
    · simp only [hbody]
      exact ih hI' (by omega)
    · simp only [hbody]
      exact ⟨a, rfl, hQ⟩

end ModelApi.Lib
