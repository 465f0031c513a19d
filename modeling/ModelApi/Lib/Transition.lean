import Mathlib

/-!
# Transition systems

A set of initial states and a step relation. A property of reachable states is proved from what
one step preserves. `Reachable.invariant_of_hereditary` covers invariants that rest on an
assumption about the run so far, such as the absence of hash collisions among the keys seen:
the assumption is inherited by every earlier state.
-/

namespace ModelApi.Lib

/-- A transition system on `σ`. -/
structure Machine (σ : Type) where
  init : σ → Prop
  step : σ → σ → Prop

namespace Machine

variable {σ : Type} {M : Machine σ}

/-- Zero or more steps. -/
abbrev Steps (M : Machine σ) : σ → σ → Prop := Relation.ReflTransGen M.step

/-- Reached from an initial state. -/
def Reachable (M : Machine σ) (s : σ) : Prop := ∃ s₀, M.init s₀ ∧ M.Steps s₀ s

lemma Reachable.of_init {s : σ} (h : M.init s) : M.Reachable s := ⟨s, h, .refl⟩

lemma Reachable.step {s t : σ} (hs : M.Reachable s) (hst : M.step s t) : M.Reachable t :=
  let ⟨s₀, h₀, hs⟩ := hs
  ⟨s₀, h₀, hs.tail hst⟩

lemma Reachable.steps {s t : σ} (hs : M.Reachable s) (hst : M.Steps s t) : M.Reachable t :=
  let ⟨s₀, h₀, hs⟩ := hs
  ⟨s₀, h₀, hs.trans hst⟩

/-- Induction over a run: the initial states, and one step from a reachable state. -/
theorem Reachable.run_induction {P : σ → Prop} (hinit : ∀ s, M.init s → P s)
    (hstep : ∀ s t, M.Reachable s → M.step s t → P s → P t) {s : σ} (h : M.Reachable s) : P s := by
  obtain ⟨s₀, h₀, hs⟩ := h
  induction hs with
  | refl => exact hinit s₀ h₀
  | tail hs hst ih => exact hstep _ _ ⟨s₀, h₀, hs⟩ hst ih

/-- An invariant that holds under an assumption inherited by earlier states. -/
theorem Reachable.invariant_of_hereditary {A P : σ → Prop} (hA : ∀ s t, M.step s t → A t → A s)
    (hinit : ∀ s, M.init s → P s) (hstep : ∀ s t, M.step s t → A t → P s → P t) {s : σ}
    (h : M.Reachable s) : A s → P s :=
  h.run_induction (P := fun s => A s → P s) (fun s h _ => hinit s h)
    (fun s t _ hst ih ht => hstep s t hst ht (ih (hA s t hst ht)))

theorem Reachable.invariant {P : σ → Prop} (hinit : ∀ s, M.init s → P s)
    (hstep : ∀ s t, M.step s t → P s → P t) {s : σ} (h : M.Reachable s) : P s :=
  h.invariant_of_hereditary (A := fun _ => True) (fun _ _ _ _ => trivial) hinit
    (fun s t hst _ => hstep s t hst) trivial

/-! ### Infinite runs -/

/-- One state after the other. -/
def Run (M : Machine σ) (run : ℕ → σ) : Prop := ∀ n, M.step (run n) (run (n + 1))

lemma Run.reachable {run : ℕ → σ} (h : M.Run run) (hstart : M.Reachable (run 0)) (n : ℕ) :
    M.Reachable (run n) := by
  induction n with
  | zero => exact hstart
  | succ n ih => exact ih.step (h n)

/-- A run that comes to a state where it can stay. -/
theorem exists_run {s t : σ} (hst : M.Steps s t) (hstay : M.step t t) :
    ∃ run, run 0 = s ∧ M.Run run ∧ ∃ N, ∀ n, N ≤ n → run n = t := by
  induction hst using Relation.ReflTransGen.head_induction_on with
  | refl => exact ⟨fun _ => t, rfl, fun _ => hstay, 0, fun _ _ => rfl⟩
  | @head s u hfirst _ ih =>
    obtain ⟨run, rfl, hrun, N, hN⟩ := ih
    refine ⟨fun n => n.casesOn s run, rfl, fun n => ?_, N + 1, fun n hn => ?_⟩
    · cases n with
      | zero => exact hfirst
      | succ n => exact hrun n
    · obtain ⟨n, rfl⟩ := Nat.exists_eq_add_of_le' (Nat.one_le_of_lt hn)
      exact hN n (Nat.le_of_succ_le_succ hn)

end Machine

end ModelApi.Lib
