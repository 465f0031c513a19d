import Mathlib

/-!
# Fair runs

A part of a system whose steps count down while the other parts leave the count alone. In a run that
is fair to this part the count comes to zero, and the part takes no more steps than it counted.
-/

namespace ModelApi.Lib

variable (count : ℕ → ℕ)

/-- Where the part moves again and again, or has come to its end, it comes to its end. -/
theorem eventually_zero_of_fair (hstep : ∀ n, count (n + 1) ≤ count n)
    (hfair : ∀ n, ∃ m, n ≤ m ∧ (count (m + 1) < count m ∨ count m = 0)) :
    ∃ n, ∀ m, n ≤ m → count m = 0 := by
  have hanti : Antitone count := antitone_nat_of_succ_le hstep
  obtain ⟨n, hconst⟩ := WellFoundedLT.antitone_chain_condition hanti
  obtain ⟨m, hnm, hlt | hzero⟩ := hfair n
  · have h₁ := hconst m hnm
    have h₂ := hconst (m + 1) (by omega)
    omega
  · refine ⟨m, fun k hk => ?_⟩
    have hle := hanti hk
    omega

lemma card_moves_add_le (hstep : ∀ n, count (n + 1) ≤ count n) (n : ℕ) :
    ((Finset.range n).filter fun m => count (m + 1) < count m).card + count n ≤ count 0 := by
  induction n with
  | zero => simp
  | succ n ih =>
    rw [Finset.range_add_one, Finset.filter_insert]
    have hle := hstep n
    split_ifs with hlt
    · rw [Finset.card_insert_of_notMem (by simp)]
      omega
    · omega

/-- The part moves no more often than it counts. -/
theorem card_moves_le (hstep : ∀ n, count (n + 1) ≤ count n) (moves : Finset ℕ)
    (hmoves : ∀ m ∈ moves, count (m + 1) < count m) : moves.card ≤ count 0 := by
  obtain ⟨n, hn⟩ := moves.exists_nat_subset_range
  have hsubset : moves ⊆ (Finset.range n).filter fun m => count (m + 1) < count m := fun m hm =>
    Finset.mem_filter.mpr ⟨hn hm, hmoves m hm⟩
  have hcard := Finset.card_le_card hsubset
  have hle := card_moves_add_le count hstep n
  omega

/-- A part that can move again and again does so. -/
def StronglyFair (enabled moves : ℕ → Prop) : Prop :=
  (∀ n, ∃ m, n ≤ m ∧ enabled m) → ∀ n, ∃ m, n ≤ m ∧ moves m

lemma StronglyFair.shift {enabled moves : ℕ → Prop} (h : StronglyFair enabled moves) (n₀ : ℕ) :
    StronglyFair (fun n => enabled (n₀ + n)) fun n => moves (n₀ + n) := by
  intro henabled n
  have hagain : ∀ k, ∃ m, k ≤ m ∧ enabled m := by
    intro k
    obtain ⟨m, hm, hk⟩ := henabled k
    exact ⟨n₀ + m, hm.trans (Nat.le_add_left m n₀), hk⟩
  obtain ⟨m, hm, hmoves⟩ := h hagain (n₀ + n)
  obtain ⟨k, rfl⟩ := Nat.exists_eq_add_of_le ((Nat.le_add_right n₀ n).trans hm)
  exact ⟨k, Nat.le_of_add_le_add_left hm, hmoves⟩

/-- Where the part gets to move as long as it counts, it comes to its end. -/
theorem eventually_zero_of_stronglyFair {enabled moves : ℕ → Prop}
    (hfair : StronglyFair enabled moves) (hstep : ∀ n, count (n + 1) ≤ count n)
    (hmoves : ∀ n, moves n → count (n + 1) < count n)
    (henabled : ∀ n, count n ≠ 0 → ∃ m, n ≤ m ∧ enabled m) : ∃ n, ∀ m, n ≤ m → count m = 0 := by
  by_cases hzero : ∃ n, count n = 0
  · obtain ⟨n, hn⟩ := hzero
    refine ⟨n, fun m hm => ?_⟩
    have hle := antitone_nat_of_succ_le hstep hm
    omega
  · push Not at hzero
    refine eventually_zero_of_fair count hstep fun n => ?_
    obtain ⟨m, hnm, hm⟩ := hfair (fun n => henabled n (hzero n)) n
    exact ⟨m, hnm, .inl (hmoves m hm)⟩

end ModelApi.Lib
