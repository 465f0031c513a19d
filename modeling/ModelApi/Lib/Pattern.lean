import ModelApi.Lib.Text

/-!
# Patterns

Regular expressions that are sequences of character classes, each with at most one repetition. As in
a backtracking matcher, repetitions are greedy and the first way to match from the leftmost place
wins.
-/

namespace ModelApi.Lib

/-- A character class and how often it is repeated. -/
inductive Item where
  | one (p : Char → Bool)
  /-- `?` -/
  | opt (p : Char → Bool)
  /-- `*` -/
  | many (p : Char → Bool)
  /-- `{0,n}` -/
  | upTo (n : ℕ) (p : Char → Bool)

abbrev Pattern := List Item

namespace Pattern

/-- As many characters as possible such that `k` matches behind them. -/
def manyThen (p : Char → Bool) (k : Str → Option Str) : Str → Option Str
  | []     => k []
  | c :: s => if p c then (manyThen p k s).or (k (c :: s)) else k (c :: s)

def upToThen (p : Char → Bool) (k : Str → Option Str) : ℕ → Str → Option Str
  | 0, s          => k s
  | _ + 1, []     => k []
  | n + 1, c :: s => if p c then (upToThen p k n s).or (k (c :: s)) else k (c :: s)

/-- What is left behind a match at the start of a text. -/
def matchStart : Pattern → Str → Option Str
  | [], s                   => some s
  | .one _ :: _, []         => none
  | .one p :: items, c :: s => if p c then matchStart items s else none
  | .opt p :: items, s      => upToThen p (matchStart items) 1 s
  | .many p :: items, s     => manyThen p (matchStart items) s
  | .upTo n p :: items, s   => upToThen p (matchStart items) n s

/-- The matches of a pattern that matches no empty text, each with its byte offset. `pos` is the
offset of the text, of which the first `skip` characters belong to the last match. -/
def findFrom (pat : Pattern) : ℕ → ℕ → Str → List (ℕ × Str)
  | _, _, []               => []
  | skip + 1, pos, c :: s  => findFrom pat skip (pos + (encodeChar c).length) s
  | 0, pos, c :: s         =>
    match pat.matchStart (c :: s) with
    | some rest =>
      (pos, (c :: s).take (s.length + 1 - rest.length)) ::
        findFrom pat (s.length - rest.length) (pos + (encodeChar c).length) s
    | none => findFrom pat 0 (pos + (encodeChar c).length) s

def findIter (pat : Pattern) (s : Str) : List (ℕ × Str) := pat.findFrom 0 0 s

/-! ### What matches -/

/-- The texts that a pattern matches. -/
inductive Matches : Pattern → Str → Prop where
  | nil : Matches [] []
  | one {p : Char → Bool} {items : Pattern} {c : Char} {m : Str} (hc : p c = true)
      (h : Matches items m) : Matches (.one p :: items) (c :: m)
  | optNone {p : Char → Bool} {items : Pattern} {m : Str} (h : Matches items m) :
      Matches (.opt p :: items) m
  | optSome {p : Char → Bool} {items : Pattern} {c : Char} {m : Str} (hc : p c = true)
      (h : Matches items m) : Matches (.opt p :: items) (c :: m)
  | many {p : Char → Bool} {items : Pattern} {w m : Str} (hw : ∀ c ∈ w, p c = true)
      (h : Matches items m) : Matches (.many p :: items) (w ++ m)
  | upTo {p : Char → Bool} {n : ℕ} {items : Pattern} {w m : Str} (hlen : w.length ≤ n)
      (hw : ∀ c ∈ w, p c = true) (h : Matches items m) : Matches (.upTo n p :: items) (w ++ m)

lemma exists_of_manyThen {p : Char → Bool} {k : Str → Option Str} {s r : Str}
    (h : manyThen p k s = some r) :
    ∃ w s', s = w ++ s' ∧ (∀ c ∈ w, p c = true) ∧ k s' = some r := by
  induction s with
  | nil => exact ⟨[], [], rfl, nofun, h⟩
  | cons c s ih =>
    rw [manyThen] at h
    split_ifs at h with hc
    · rcases Option.or_eq_some_iff.mp h with h | ⟨-, h⟩
      · obtain ⟨w, s', rfl, hw, hk⟩ := ih h
        exact ⟨c :: w, s', rfl, List.forall_mem_cons.mpr ⟨hc, hw⟩, hk⟩
      · exact ⟨[], c :: s, rfl, nofun, h⟩
    · exact ⟨[], c :: s, rfl, nofun, h⟩

lemma isSome_manyThen {p : Char → Bool} {k : Str → Option Str} {w s : Str}
    (hw : ∀ c ∈ w, p c = true) (hk : (k s).isSome = true) :
    (manyThen p k (w ++ s)).isSome = true := by
  induction w with
  | nil =>
    cases s with
    | nil => exact hk
    | cons c s =>
      rw [List.nil_append, manyThen]
      split_ifs
      · rw [Option.isSome_or, hk, Bool.or_true]
      · exact hk
  | cons c w ih =>
    obtain ⟨hc, hw⟩ := List.forall_mem_cons.mp hw
    rw [List.cons_append, manyThen, if_pos hc, Option.isSome_or, ih hw, Bool.true_or]

lemma exists_of_upToThen {p : Char → Bool} {k : Str → Option Str} {n : ℕ} {s r : Str}
    (h : upToThen p k n s = some r) :
    ∃ w s', s = w ++ s' ∧ w.length ≤ n ∧ (∀ c ∈ w, p c = true) ∧ k s' = some r := by
  induction n generalizing s with
  | zero => exact ⟨[], s, rfl, le_rfl, nofun, h⟩
  | succ n ih =>
    cases s with
    | nil => exact ⟨[], [], rfl, Nat.zero_le _, nofun, h⟩
    | cons c s =>
      rw [upToThen] at h
      split_ifs at h with hc
      · rcases Option.or_eq_some_iff.mp h with h | ⟨-, h⟩
        · obtain ⟨w, s', rfl, hlen, hw, hk⟩ := ih h
          exact ⟨c :: w, s', rfl, Nat.succ_le_succ hlen, List.forall_mem_cons.mpr ⟨hc, hw⟩, hk⟩
        · exact ⟨[], c :: s, rfl, Nat.zero_le _, nofun, h⟩
      · exact ⟨[], c :: s, rfl, Nat.zero_le _, nofun, h⟩

lemma isSome_upToThen {p : Char → Bool} {k : Str → Option Str} {n : ℕ} {w s : Str}
    (hlen : w.length ≤ n) (hw : ∀ c ∈ w, p c = true) (hk : (k s).isSome = true) :
    (upToThen p k n (w ++ s)).isSome = true := by
  induction n generalizing w with
  | zero =>
    rw [List.length_eq_zero_iff.mp (Nat.le_zero.mp hlen)]
    exact hk
  | succ n ih =>
    cases w with
    | nil =>
      cases s with
      | nil => exact hk
      | cons c s =>
        rw [List.nil_append, upToThen]
        split_ifs
        · rw [Option.isSome_or, hk, Bool.or_true]
        · exact hk
    | cons c w =>
      obtain ⟨hc, hw⟩ := List.forall_mem_cons.mp hw
      rw [List.cons_append, upToThen, if_pos hc, Option.isSome_or,
        ih (Nat.le_of_succ_le_succ hlen) hw, Bool.true_or]

/-- What is found at the start of a text matches. -/
lemma exists_of_matchStart {pat : Pattern} {s r : Str} (h : pat.matchStart s = some r) :
    ∃ m, s = m ++ r ∧ Matches pat m := by
  induction pat generalizing s with
  | nil =>
    cases h
    exact ⟨[], rfl, .nil⟩
  | cons item pat ih =>
    cases item with
    | one p =>
      cases s with
      | nil => cases h
      | cons c s =>
        rw [matchStart] at h
        split_ifs at h with hc
        obtain ⟨m, rfl, hm⟩ := ih h
        exact ⟨c :: m, rfl, .one hc hm⟩
    | opt p =>
      obtain ⟨w, s', rfl, hlen, hw, hk⟩ := exists_of_upToThen h
      obtain ⟨m, rfl, hm⟩ := ih hk
      match w, hlen with
      | [], _  => exact ⟨m, rfl, .optNone hm⟩
      | [c], _ => exact ⟨c :: m, rfl, .optSome (hw c List.mem_cons_self) hm⟩
    | many p =>
      obtain ⟨w, s', rfl, hw, hk⟩ := exists_of_manyThen h
      obtain ⟨m, rfl, hm⟩ := ih hk
      exact ⟨w ++ m, by rw [List.append_assoc], .many hw hm⟩
    | upTo n p =>
      obtain ⟨w, s', rfl, hlen, hw, hk⟩ := exists_of_upToThen h
      obtain ⟨m, rfl, hm⟩ := ih hk
      exact ⟨w ++ m, by rw [List.append_assoc], .upTo hlen hw hm⟩

/-- Where something matches, something is found. -/
lemma Matches.isSome_matchStart {pat : Pattern} {m : Str} (h : Matches pat m) (r : Str) :
    (pat.matchStart (m ++ r)).isSome = true := by
  induction h with
  | nil => rfl
  | one hc _ ih => rwa [List.cons_append, matchStart, if_pos hc]
  | optNone _ ih => exact isSome_upToThen (w := []) (Nat.zero_le 1) nofun ih
  | @optSome p items c m hc _ ih =>
    exact isSome_upToThen (w := [c]) le_rfl (List.forall_mem_singleton.mpr hc) ih
  | many hw _ ih =>
    rw [List.append_assoc]
    exact isSome_manyThen hw ih
  | upTo hlen hw _ ih =>
    rw [List.append_assoc]
    exact isSome_upToThen hlen hw ih

/-! ### Where matches lie -/

/-- What is taken for a match. -/
lemma exists_take_of_matchStart {pat : Pattern} {c : Char} {s r : Str}
    (h : pat.matchStart (c :: s) = some r) :
    ∃ m, (c :: s).take (s.length + 1 - r.length) = m ∧ c :: s = m ++ r ∧ Matches pat m := by
  obtain ⟨m, hm, hmatches⟩ := exists_of_matchStart h
  have hlen := congrArg List.length hm
  rw [List.length_append, List.length_cons] at hlen
  have hcut : s.length + 1 - r.length = m.length := by omega
  exact ⟨m, by rw [hm, hcut, List.take_left], hm, hmatches⟩

lemma mem_findFrom {pat : Pattern} {skip pos : ℕ} {s : Str} {i : ℕ} {m : Str}
    (h : (i, m) ∈ pat.findFrom skip pos s) :
    ∃ a b : Str, s = a ++ m ++ b ∧ i = pos + a.len ∧ Matches pat m := by
  induction s generalizing skip pos with
  | nil => cases skip <;> cases h
  | cons c s ih =>
    have hstep : ∀ {skip' : ℕ}, (i, m) ∈ pat.findFrom skip' (pos + (encodeChar c).length) s →
        ∃ a b : Str, c :: s = a ++ m ++ b ∧ i = pos + a.len ∧ Matches pat m := by
      intro skip' h
      obtain ⟨a, b, rfl, rfl, hm⟩ := ih h
      exact ⟨c :: a, b, rfl, by rw [Str.len_cons]; omega, hm⟩
    cases skip with
    | succ skip => exact hstep h
    | zero =>
      rw [findFrom] at h
      split at h
      · next rest hmatch =>
        rcases List.mem_cons.mp h with heq | h
        · obtain ⟨rfl, rfl⟩ := Prod.mk.inj heq
          obtain ⟨m, htake, hm, hmatches⟩ := exists_take_of_matchStart hmatch
          exact ⟨[], rest, by rw [htake]; exact hm, rfl, by rwa [htake]⟩
        · exact hstep h
      · exact hstep h

/-- A match is a part of the text, at its offset. -/
lemma mem_findIter {pat : Pattern} {s : Str} {i : ℕ} {m : Str} (h : (i, m) ∈ pat.findIter s) :
    ∃ a b : Str, s = a ++ m ++ b ∧ i = a.len ∧ Matches pat m := by
  obtain ⟨a, b, hs, hi, hm⟩ := mem_findFrom h
  exact ⟨a, b, hs, by rw [hi, Nat.zero_add], hm⟩

/-- Where a pattern matches, a match has been found that reaches beyond this place. -/
lemma findFrom_covers {pat : Pattern}
    (hpat : ∀ s r, pat.matchStart s = some r → r.length < s.length) {skip : ℕ} (pos : ℕ)
    {a b : Str} (hskip : skip ≤ a.length) (hb : (pat.matchStart b).isSome = true) :
    ∃ a' m b' : Str, a ++ b = a' ++ m ++ b' ∧
      (pos + a'.len, m) ∈ pat.findFrom skip pos (a ++ b) ∧ pat.matchStart (m ++ b') = some b' ∧
      a'.length ≤ a.length ∧ a.length < a'.length + m.length := by
  induction hs : a ++ b generalizing skip pos a with
  | nil =>
    rw [(List.append_eq_nil_iff.mp hs).2] at hb
    obtain ⟨r, hr⟩ := Option.isSome_iff_exists.mp hb
    exact absurd (hpat _ _ hr) (Nat.not_lt_zero _)
  | cons c s ih =>
    -- behind the first character
    have hstep : ∀ (skip' : ℕ) {a' : Str}, a = c :: a' → skip' ≤ a'.length →
        ∃ a₁ m b₁ : Str, c :: s = a₁ ++ m ++ b₁ ∧
          (pos + a₁.len, m) ∈ pat.findFrom skip' (pos + (encodeChar c).length) s ∧
          pat.matchStart (m ++ b₁) = some b₁ ∧ a₁.length ≤ a.length ∧
          a.length < a₁.length + m.length := by
      rintro skip' a' rfl hle
      obtain ⟨a₁, m, b₁, heq, hmem, hmatch, hstart, hend⟩ :=
        ih (pos + (encodeChar c).length) hle (List.cons.inj hs).2
      refine ⟨c :: a₁, m, b₁, by rw [heq]; rfl, ?_, hmatch, ?_, ?_⟩
      · rwa [Str.len_cons, ← Nat.add_assoc]
      · exact Nat.succ_le_succ hstart
      · rw [List.length_cons, List.length_cons]
        omega
    have hcons : a ≠ [] → ∃ a', a = c :: a' := by
      intro hne
      obtain ⟨d, a', rfl⟩ := List.exists_cons_of_ne_nil hne
      exact ⟨a', by rw [(List.cons.inj hs).1]⟩
    cases skip with
    | succ skip =>
      obtain ⟨a', rfl⟩ := hcons (List.ne_nil_of_length_pos (by omega))
      exact hstep skip rfl (Nat.le_of_succ_le_succ hskip)
    | zero =>
      rw [findFrom]
      cases hmatch : pat.matchStart (c :: s) with
      | none =>
        have hne : a ≠ [] := by
          rintro rfl
          rw [List.nil_append] at hs
          rw [hs, hmatch] at hb
          cases hb
        obtain ⟨a', rfl⟩ := hcons hne
        exact hstep 0 rfl (Nat.zero_le _)
      | some r =>
        have hlt := hpat _ _ hmatch
        obtain ⟨m, htake, hm, -⟩ := exists_take_of_matchStart hmatch
        have hlen := congrArg List.length hm
        rw [List.length_append, List.length_cons] at hlen
        simp only [htake]
        by_cases hreach : a.length < m.length
        · refine ⟨[], m, r, hm, by simp, ?_, Nat.zero_le _, by simpa using hreach⟩
          rw [← hm, hmatch]
        · rw [List.length_cons] at hlt
          obtain ⟨a', rfl⟩ := hcons (List.ne_nil_of_length_pos (by omega))
          rw [List.length_cons] at hreach
          obtain ⟨a₁, m', b₁, heq, hmem, hrest⟩ := hstep (s.length - r.length) rfl (by omega)
          exact ⟨a₁, m', b₁, heq, List.mem_cons_of_mem _ hmem, hrest⟩

lemma findIter_covers {pat : Pattern}
    (hpat : ∀ s r, pat.matchStart s = some r → r.length < s.length) {a m b : Str}
    (hm : Matches pat m) :
    ∃ a' m' b' : Str, a ++ m ++ b = a' ++ m' ++ b' ∧ (a'.len, m') ∈ pat.findIter (a ++ m ++ b) ∧
      Matches pat m' ∧ a'.length ≤ a.length ∧ a.length < a'.length + m'.length := by
  obtain ⟨a', m', b', heq, hmem, hmatch, hle, hlt⟩ :=
    findFrom_covers hpat 0 (Nat.zero_le a.length) (hm.isSome_matchStart b)
  rw [Nat.zero_add, ← List.append_assoc] at hmem
  rw [← List.append_assoc] at heq
  obtain ⟨m'', hm'', hmatches⟩ := exists_of_matchStart hmatch
  obtain rfl := List.append_cancel_right hm''
  exact ⟨a', m', b', heq, hmem, hmatches, hle, hlt⟩

end Pattern

end ModelApi.Lib
