import ModelApi.Lib.Codec

/-!
# Unambiguous serialization

Two ways a concatenation can be taken apart again: by parts that show their own end, and by a
delimiter that does not occur before its place.
-/

namespace ModelApi.Lib

variable {α β : Type}

/-- On the values satisfying `P`, an encoding shows where it ends: it is recovered, with what
follows it, from any concatenation. -/
def SelfDelimiting (P : α → Prop) (enc : α → List β) : Prop :=
  ∀ ⦃a b : α⦄ ⦃r s : List β⦄, P a → P b → enc a ++ r = enc b ++ s → a = b ∧ r = s

/-- A sequence of self-delimiting parts determines the parts. -/
lemma SelfDelimiting.flatMap_inj {P : α → Prop} {enc : α → List β} (h : SelfDelimiting P enc)
    (hne : ∀ a, enc a ≠ []) {as bs : List α} (ha : ∀ a ∈ as, P a) (hb : ∀ b ∈ bs, P b)
    (heq : as.flatMap enc = bs.flatMap enc) : as = bs := by
  induction as generalizing bs with
  | nil =>
    cases bs with
    | nil => rfl
    | cons b bs =>
      rw [List.flatMap_nil, List.flatMap_cons, eq_comm, List.append_eq_nil_iff] at heq
      exact absurd heq.1 (hne b)
  | cons a as ih =>
    cases bs with
    | nil =>
      rw [List.flatMap_nil, List.flatMap_cons, List.append_eq_nil_iff] at heq
      exact absurd heq.1 (hne a)
    | cons b bs =>
      rw [List.flatMap_cons, List.flatMap_cons] at heq
      obtain ⟨rfl, htl⟩ := h (ha a List.mem_cons_self) (hb b List.mem_cons_self) heq
      rw [ih (fun c hc => ha c (List.mem_cons_of_mem _ hc))
        (fun c hc => hb c (List.mem_cons_of_mem _ hc)) htl]

/-- A length of `w` little-endian bytes in front of the data. -/
lemma selfDelimiting_lengthPrefixed (w : ℕ) :
    SelfDelimiting (fun bs : List UInt8 => bs.length < 256 ^ w)
      (fun bs => leBytes w bs.length ++ bs) := by
  intro a b r s ha hb heq
  rw [List.append_assoc, List.append_assoc] at heq
  obtain ⟨hlen, htl⟩ := List.append_inj heq (by simp)
  exact List.append_inj htl (leBytes_inj ha hb hlen)

/-- The delimiter `d`, put behind `s`, already occurs before its place. -/
def EarlyIn (d s : List β) : Prop := ∃ i < s.length, d <+: (s ++ d).drop i

/-- A text in which the first letter of the delimiter does not occur is safe. -/
lemma not_earlyIn_of_notMem {b : β} {d s : List β} (h : b ∉ s) : ¬ EarlyIn (b :: d) s := by
  rintro ⟨i, hi, hpre⟩
  rw [List.drop_append_of_le_length hi.le, List.drop_eq_getElem_cons hi, List.cons_append,
    List.cons_prefix_cons] at hpre
  exact h (hpre.1 ▸ List.getElem_mem hi)

/-- A delimiter that does not repeat its first letter stands early in no text that does not hold
it. -/
lemma not_earlyIn_of_not_infix {b : β} {d s : List β} (hb : b ∉ d) (h : ¬ (b :: d) <:+: s) :
    ¬ EarlyIn (b :: d) s := by
  rintro ⟨i, hi, hpre⟩
  have hne : s.drop i ≠ [] := by
    rw [Ne, List.drop_eq_nil_iff]
    omega
  have hin : ¬ (b :: d) <+: s.drop i := fun hin => h (hin.isInfix.trans (s.drop_suffix i).isInfix)
  rw [List.drop_append_of_le_length hi.le] at hpre
  obtain ⟨c, x, hx⟩ := List.exists_cons_of_ne_nil hne
  rw [hx] at hin hpre
  obtain ⟨r, hr⟩ := (List.prefix_or_prefix_of_prefix hpre (List.prefix_append _ _)).resolve_left hin
  rw [List.cons_append, List.cons.injEq] at hr
  obtain ⟨rfl, rfl⟩ := hr
  -- the delimiter would begin again inside itself
  have hagain : r <+: c :: (x ++ r) := by
    rw [List.cons_append, List.cons_prefix_cons, List.prefix_append_right_inj] at hpre
    exact hpre.2
  cases r with
  | nil => exact hin (by simp)
  | cons a r =>
    obtain ⟨rfl, -⟩ := List.cons_prefix_cons.mp hagain
    exact hb (by simp)

/-- Two delimited texts that open the same string, neither holding the delimiter early, are the
same text. -/
lemma eq_of_delimited {d s t r r' : List β} (hs : ¬ EarlyIn d s) (ht : ¬ EarlyIn d t)
    (heq : s ++ (d ++ r) = t ++ (d ++ r')) : s = t ∧ r = r' := by
  -- the shorter text would put the delimiter early in the longer one
  have early : ∀ {s t r r' : List β}, s ++ (d ++ r) = t ++ (d ++ r') → s.length < t.length →
      EarlyIn d t := by
    intro s t r r' heq hlt
    refine ⟨s.length, hlt, ?_⟩
    have hdrop := congrArg (List.drop s.length) heq
    rw [List.drop_left, ← List.append_assoc t,
      List.drop_append_of_le_length (by rw [List.length_append]; omega)] at hdrop
    refine List.prefix_of_prefix_length_le (List.prefix_append d r) ?_
      (by rw [List.length_drop, List.length_append]; omega)
    rw [hdrop]
    exact List.prefix_append _ _
  have hlen : s.length = t.length := by
    rcases lt_trichotomy s.length t.length with h | h | h
    · exact absurd (early heq h) ht
    · exact h
    · exact absurd (early heq.symm h) hs
  obtain ⟨rfl, htl⟩ := List.append_inj heq hlen
  exact ⟨rfl, List.append_cancel_left htl⟩

/-- No tag is the beginning of another one. -/
def PrefixFree (tag : α → List β) : Prop := ∀ ⦃a b : α⦄, tag a <+: tag b → a = b

/-- A tag, a text and a delimiter. -/
lemma selfDelimiting_tagged {tag : α → List β} (htag : PrefixFree tag) (d : List β) :
    SelfDelimiting (fun m : α × List β => ¬ EarlyIn d m.2) (fun m => tag m.1 ++ (m.2 ++ d)) := by
  rintro ⟨a, s⟩ ⟨b, t⟩ r r' hs ht heq
  simp only [List.append_assoc] at heq
  have hpre := List.prefix_append (tag b) (t ++ (d ++ r'))
  rw [← heq] at hpre
  obtain rfl : a = b := by
    rcases List.prefix_or_prefix_of_prefix (List.prefix_append _ _) hpre with hab | hba
    · exact htag hab
    · exact (htag hba).symm
  obtain ⟨rfl, rfl⟩ := eq_of_delimited hs ht (List.append_cancel_left heq)
  exact ⟨rfl, rfl⟩

end ModelApi.Lib
