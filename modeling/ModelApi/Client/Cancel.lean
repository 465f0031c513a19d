import ModelApi.Client.Matching

/-!
# Cancelling an inference

`cancel` locks the mutex that an inference holds until its terminal frame has arrived.
-/

namespace ModelApi.Client

open Lib

section Blocked

variable [ToString BincodeError]

/-- Call `j` writes its frame and returns while call `i` still waits for a frame. -/
def State.CancelsDuring (s : State) (i j : ℕ) : Prop :=
  ∃ t, connection.Steps s t ∧ (∃ c, t.WaitsFor i c) ∧ ∃ d, t.calls j = some d ∧ d.pc = .done .unit

/-- A call that has entered a method while an inference waits is kept out as long as it waits. -/
lemma kept_out {s : State} (hs : connection.Reachable s) {i j : ℕ} {c d : Call}
    (hi : s.WaitsFor i c) (hj : s.calls j = some d) (hpd : d.pc = .entered) :
    ¬ s.CancelsDuring i j := by
  rintro ⟨t, hst, ⟨c', hi', hpc', -⟩, d', hj', hpd'⟩
  obtain ⟨hi, hpc, -⟩ := hi
  rcases calls_eq_of_steps hs hi hpc hj hpd hst with ⟨-, hj⟩ | ⟨c'', r, hi, hpc⟩
  · obtain rfl := Option.some.inj (hj.symm.trans hj')
    rw [hpd] at hpd'
    cases hpd'
  · obtain rfl := Option.some.inj (hi.symm.trans hi')
    rw [hpc] at hpc'
    cases hpc'

/-- A `cancel` that finds the mutex free writes its frame. -/
lemma steps_cancel {s : State} {j : ℕ} {received : List StreamEvent}
    (hj : s.calls j = some ⟨.cancel, .entered, received⟩) (hfree : s.lock = none)
    (hp : s.poisoned = false) :
    ∃ t, connection.Steps s t ∧ t.calls j = some ⟨.cancel, .done .unit, received⟩ := by
  have hlocked : (s.setCall j ⟨.cancel, .holding, received⟩).calls j =
      some ⟨.cancel, .holding, received⟩ := Function.update_self ..
  have h1 := Relation.ReflTransGen.single (r := connection.step) ⟨_, .lock hj rfl hfree hp⟩
  exact ⟨_, h1.tail ⟨_, .writeCancel hlocked rfl rfl rfl⟩, Function.update_self ..⟩

/-- In no reachable state can a thread that has entered `cancel` write its frame before the
inference in flight is over. -/
theorem cancel_blocked {s : State} (hs : connection.Reachable s) {i j : ℕ} {c : Call}
    {received : List StreamEvent} (hi : s.WaitsFor i c)
    (hj : s.calls j = some ⟨.cancel, .entered, received⟩) : ¬ s.CancelsDuring i j :=
  kept_out hs hi hj rfl

end Blocked

/-! ### An inference and a cancel -/

/-- One call waits for its first frame, and another one has entered `cancel`. -/
lemma exists_blocked : ∃ s, (@connection demoText).Reachable s ∧
    s.WaitsFor 0 ⟨demoOp, .reading, []⟩ ∧ s.calls 1 = some ⟨.cancel, .entered, []⟩ := by
  let _ := demoText
  have h0 : connection.Reachable State.init := .of_init rfl
  have h1 := h0.step ⟨_, .call 0 demoOp rfl⟩
  have h2 := h1.step ⟨_, .lock (i := 0) rfl rfl rfl rfl⟩
  have h3 := h2.step ⟨_, .writeInference (i := 0) rfl rfl rfl rfl⟩
  have h4 := h3.step ⟨_, .call 1 .cancel rfl⟩
  exact ⟨_, h4, ⟨rfl, rfl, rfl⟩, rfl⟩

theorem cancel_blocked_demo : ∃ s, (@connection demoText).Reachable s ∧
    s.calls 1 = some ⟨.cancel, .entered, []⟩ ∧ ¬ @State.CancelsDuring demoText s 0 1 := by
  let _ := demoText
  obtain ⟨s, hs, hi, hj⟩ := exists_blocked
  exact ⟨s, hs, hj, cancel_blocked hs hi hj⟩

/-- A client cannot cancel the inference it waits for. -/
theorem not_forall_cancelsDuring :
    ¬ ∀ (s : State) (i j : ℕ) (c d : Call), (@connection demoText).Reachable s →
      s.WaitsFor i c → s.calls j = some d → d.op = .cancel → d.pc = .entered →
      @State.CancelsDuring demoText s i j := by
  intro h
  let _ := demoText
  obtain ⟨s, hs, hi, hj⟩ := exists_blocked
  exact kept_out hs hi hj rfl (h s 0 1 _ _ hs hi hj rfl rfl)

end ModelApi.Client
