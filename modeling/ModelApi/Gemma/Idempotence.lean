import ModelApi.Gemma.UnEscape

/-!
# Unescaping twice

A structural quote with a second backslash in front of it is an escaped quote again once it has been
unescaped. It is then unescaped a second time if what makes it structural stands behind it; in all
other texts nothing is left to unescape.
-/

namespace ModelApi.Gemma

open Lib Lib.Str Pattern

/-- What makes a quote the end of a value stands behind it. -/
def closesValue (s : Str) : Bool :=
  (matchStart (STRUCTURAL_VALUE_CLOSE.drop 2) s).isSome ||
    (matchStart (STRUCTURAL_VALUE_CLOSE_THEN_KEY.drop 2) s).isSome

/-- The text `un_escape_structural_quotes` leaves: the rewritten one, or the same. -/
def unEscaped (x : Str) : Except Fault Str := do
  return (← unEscapeStructuralQuotes x).getD x

/-! ### The end of a value -/

lemma isSome_matchStart_iff {pat : Pattern} {s : Str} :
    (pat.matchStart s).isSome = true ↔ ∃ m r, s = m ++ r ∧ Matches pat m := by
  constructor
  · intro h
    obtain ⟨r, hr⟩ := Option.isSome_iff_exists.mp h
    obtain ⟨m, hs, hm⟩ := exists_of_matchStart hr
    exact ⟨m, r, hs, hm⟩
  · rintro ⟨m, r, rfl, hm⟩
    exact hm.isSome_matchStart r

lemma closesValue_iff {s : Str} : closesValue s = true ↔
    (∃ w r, Blank w ∧ s = w ++ '}' :: r) ∨
      ∃ w₀ w q k q' w' r, Blank w₀ ∧ KeyParts w q k q' w' ∧
        s = w₀ ++ ',' :: (keyText w q k q' w' ++ r) := by
  have hbrace : ∀ m, Matches (STRUCTURAL_VALUE_CLOSE.drop 2) m ↔
      ∃ w, Blank w ∧ m = w ++ ['}'] := by
    intro m
    change Matches (.many isWhitespace :: .one (· == '}') :: []) m ↔ _
    simp only [matches_space, matches_one]
    constructor
    · rintro ⟨w, _, rfl, hw, c, _, rfl, hc, hnil⟩
      obtain rfl := beq_iff_eq.mp hc
      cases hnil
      exact ⟨w, hw, rfl⟩
    · rintro ⟨w, hw, rfl⟩
      exact ⟨w, _, rfl, hw, '}', [], rfl, rfl, .nil⟩
  have hkey : ∀ m, Matches (STRUCTURAL_VALUE_CLOSE_THEN_KEY.drop 2) m ↔
      ∃ w₀ w q k q' w', Blank w₀ ∧ KeyParts w q k q' w' ∧
        m = w₀ ++ ',' :: keyText w q k q' w' := by
    intro m
    change Matches (.many isWhitespace :: .one (· == ',') :: .many isWhitespace ::
      (quoteItems ++ (keyItems ++ (quoteItems ++ (.many isWhitespace :: .one (· == ':') :: [])))))
        m ↔ _
    simp only [matches_space (m := m), matches_one, matches_keyText]
    constructor
    · rintro ⟨w₀, _, rfl, hw₀, c, _, rfl, hc, w, q, k, q', w', _, hparts, rfl, hnil⟩
      obtain rfl := beq_iff_eq.mp hc
      cases hnil
      exact ⟨w₀, w, q, k, q', w', hw₀, hparts, by rw [List.append_nil]⟩
    · rintro ⟨w₀, w, q, k, q', w', hw₀, hparts, rfl⟩
      exact ⟨w₀, _, rfl, hw₀, ',', _, rfl, rfl, w, q, k, q', w', [], hparts,
        (List.append_nil _).symm, .nil⟩
  rw [closesValue, Bool.or_eq_true, isSome_matchStart_iff, isSome_matchStart_iff]
  refine or_congr ?_ ?_
  · simp only [hbrace]
    constructor
    · rintro ⟨_, r, rfl, w, hw, rfl⟩
      exact ⟨w, r, hw, by simp⟩
    · rintro ⟨w, r, hw, rfl⟩
      exact ⟨_, r, by simp, w, hw, rfl⟩
  · simp only [hkey]
    constructor
    · rintro ⟨_, r, rfl, w₀, w, q, k, q', w', hw₀, hparts, rfl⟩
      exact ⟨w₀, w, q, k, q', w', r, hw₀, hparts, by simp⟩
    · rintro ⟨w₀, w, q, k, q', w', r, hw₀, hparts, rfl⟩
      exact ⟨_, r, by simp, w₀, w, q, k, q', w', hw₀, hparts, rfl⟩

/-- A quote in front of the end of a value is structural. -/
lemma structural_of_closesValue {s : Str} (h : closesValue s = true) (front : Str) :
    Structural front (blind s) := by
  rcases closesValue_iff.mp h with ⟨w, r, hw, rfl⟩ | ⟨w₀, w, q, k, q', w', r, hw₀, hparts, rfl⟩
  · rw [blind_space hw, blind_mark (by simp)]
    exact .last hw
  · rw [blind_space hw₀, blind_mark (by simp), hparts.blind_append]
    exact .value hw₀ hparts.space hparts.key hparts.space'

/-- Behind a backslash only the ends of values are structural. -/
lemma closesValue_of_structural {front s : Str} (hfront : front.getLast? = some '\\')
    (h : Structural front (blind s)) : closesValue s = true := by
  have hlast : ∀ {l t : Str} {c : Char}, l ++ c :: t = front → '\\' ∈ c :: t := by
    rintro l t c rfl
    rw [List.getLast?_append_cons] at hfront
    exact List.mem_of_getLast? hfront
  have hmark : ∀ {d : Char}, d = '{' ∨ d = ',' → d ≠ '\\' := by
    rintro d (rfl | rfl) <;> decide
  rw [closesValue_iff]
  generalize hback : blind s = back at h
  cases h with
  | @last _ w r hw =>
    obtain ⟨b, rfl, -⟩ := exists_of_blind_eq_space hw (by simp) hback
    exact .inl ⟨w, b, hw, rfl⟩
  | @value _ w w' k w'' r hw hw' hk hw'' =>
    obtain ⟨b₁, rfl, hb₁⟩ := exists_of_blind_eq_space hw (by simp) hback
    obtain ⟨q, b₂, hq, rfl, hb₂⟩ := exists_of_blind_eq_spaceQuote hw' hb₁
    obtain ⟨q', b₃, hq', rfl, -⟩ := exists_of_blind_eq_key hk hw'' hb₂
    exact .inr ⟨w, w', q, k, q', w'', b₃, hw, ⟨hw', hq, hk, hq', hw''⟩, by simp [keyText]⟩
  | @opensKey l w k w' r d hanchored hw hk hw' =>
    have hmem := hlast rfl
    simp [(hmark (eq_of_anchored hanchored)).symm, not_mem_of_blank hw] at hmem
  | @closesKey l w k w' r d hanchored hw hk hw' =>
    have hmem := hlast rfl
    simp [(hmark (eq_of_anchored hanchored)).symm, not_mem_of_blank hw, hk.not_mem] at hmem
  | @opensValue l w k w' w'' _ d hd hw hk hw' hw'' =>
    have hmem := hlast rfl
    simp [(hmark hd).symm, not_mem_of_blank hw, hk.not_mem, not_mem_of_blank hw',
      not_mem_of_blank hw''] at hmem

/-! ### Unescaped texts -/

namespace Stripped

lemma length_le {front s t : Str} (h : Stripped front s t) : t.length ≤ s.length := by
  induction h with
  | nil => exact le_refl _
  | structural _ _ ih => exact (Nat.succ_le_succ ih).trans (Nat.le_succ _)
  | data _ _ ih => exact Nat.succ_le_succ (Nat.succ_le_succ ih)
  | char _ _ ih => exact Nat.succ_le_succ ih

/-- What has become of the first part of a text. -/
lemma exists_append {front a s t : Str} (hs : s.head? ≠ some '"') (h : Stripped front (a ++ s) t) :
    ∃ a' s', t = a' ++ s' ∧ a'.length ≤ a.length ∧
      (a.getLast? = some '\\' → a'.getLast? = some '\\') ∧ Stripped (front ++ blind a) s s' := by
  rcases blind_cases a with rfl | ⟨a₁, rfl, hblind⟩ | ⟨c, a₁, rfl, hc, hblind⟩
  · exact ⟨[], t, rfl, le_refl _, id, by simpa using h⟩
  · obtain ⟨u, t, hu, rfl, hs'⟩ : ∃ u t', u.length ≤ 2 ∧ t = u ++ t' ∧
        Stripped (front ++ ['"']) (a₁ ++ s) t' := by
      cases h with
      | structural _ h => exact ⟨['"'], _, by simp, rfl, h⟩
      | data _ h => exact ⟨['\\', '"'], _, by simp, rfl, h⟩
      | char hc _ => exact absurd ⟨rfl, rfl⟩ hc
    obtain ⟨a', s', rfl, hlen, hlast, h'⟩ := exists_append hs hs'
    refine ⟨u ++ a', s', by simp, ?_, ?_, by simpa [hblind] using h'⟩
    · rw [List.length_append, List.length_cons, List.length_cons]
      omega
    · intro ha
      cases ha₁ : a₁.getLast? with
      | none => simp [List.getLast?_cons, ha₁] at ha
      | some c =>
        obtain rfl : c = '\\' := by simpa [List.getLast?_cons, ha₁] using ha
        simp [List.getLast?_append, hlast ha₁]
  · have hc' : ¬ (c = '\\' ∧ (a₁ ++ s).head? = some '"') := by
      rintro ⟨rfl, hhead⟩
      cases a₁ with
      | nil => exact hs hhead
      | cons d a₁ => exact hc ⟨rfl, hhead⟩
    obtain ⟨t, rfl, hs'⟩ : ∃ t', t = c :: t' ∧ Stripped (front ++ [c]) (a₁ ++ s) t' := by
      rw [List.cons_append] at h
      generalize a₁ ++ s = r at h hc'
      cases h with
      | structural _ _ => exact absurd ⟨rfl, rfl⟩ hc'
      | data _ _ => exact absurd ⟨rfl, rfl⟩ hc'
      | char _ h => exact ⟨_, rfl, h⟩
    obtain ⟨a', s', rfl, hlen, hlast, h'⟩ := exists_append hs hs'
    refine ⟨c :: a', s', rfl, Nat.succ_le_succ hlen, ?_, by simpa [hblind] using h'⟩
    intro ha
    cases ha₁ : a₁.getLast? with
    | none =>
      obtain rfl := List.getLast?_eq_none_iff.mp ha₁
      obtain rfl := List.length_eq_zero_iff.mp (Nat.le_zero.mp hlen)
      exact ha
    | some d =>
      obtain rfl : d = '\\' := by simpa [List.getLast?_cons, ha₁] using ha
      simp [List.getLast?_cons, hlast ha₁]
termination_by a.length

/-- A text that stays has no structural quotes. -/
lemma not_structural {front a b : Str}
    (h : Stripped front (a ++ '\\' :: '"' :: b) (a ++ '\\' :: '"' :: b)) :
    ¬ Structural (front ++ blind a) (blind b) := by
  intro hstructural
  obtain ⟨a', s', heq, ha, -, hs⟩ := h.exists_append (by simp)
  have hlen := congrArg List.length heq
  cases hs with
  | structural _ hb =>
    have := hb.length_le
    simp only [List.length_append, List.length_cons] at hlen
    omega
  | data hdata _ => exact hdata hstructural
  | char hc _ => exact hc ⟨rfl, rfl⟩

lemma eq_cons {front s t : Str} {c : Char} (hc : c ≠ '\\') (h : Stripped front (c :: s) t) :
    ∃ t', t = c :: t' ∧ Stripped (front ++ [c]) s t' := by
  cases h with
  | structural _ _ => exact absurd rfl hc
  | data _ _ => exact absurd rfl hc
  | char _ h => exact ⟨_, rfl, h⟩

lemma eq_append {front w s t : Str} (hw : '\\' ∉ w) (h : Stripped front (w ++ s) t) :
    ∃ front' t', t = w ++ t' ∧ Stripped front' s t' := by
  induction w generalizing front t with
  | nil => exact ⟨front, t, rfl, h⟩
  | cons c w ih =>
    rw [List.mem_cons, not_or] at hw
    obtain ⟨t, rfl, hs⟩ := h.eq_cons (fun hc => hw.1 hc.symm)
    obtain ⟨front', t', rfl, h'⟩ := ih hw.2 hs
    exact ⟨front', t', rfl, h'⟩

lemma eq_quote {front q s t : Str} (hq : OptQuote q) (h : Stripped front (q ++ s) t) :
    ∃ front' q' t', OptQuote q' ∧ t = q' ++ t' ∧ Stripped front' s t' := by
  cases hq with
  | plain =>
    obtain ⟨t, rfl, hs⟩ := h.eq_cons (by simp)
    exact ⟨_, _, t, .plain, rfl, hs⟩
  | escaped =>
    cases h with
    | structural _ h => exact ⟨_, _, _, .plain, rfl, h⟩
    | data _ h => exact ⟨_, _, _, .escaped, rfl, h⟩
    | char hc _ => exact absurd ⟨rfl, rfl⟩ hc

/-- The end of a value stays one. -/
lemma closesValue {front s t : Str} (h : Stripped front s t) (hs : closesValue s = true) :
    ModelApi.Gemma.closesValue t = true := by
  rw [closesValue_iff]
  rcases closesValue_iff.mp hs with ⟨w, r, hw, rfl⟩ | ⟨w₀, w, q, k, q', w', r, hw₀, hparts, rfl⟩
  · obtain ⟨_, _, rfl, h₁⟩ := h.eq_append (not_mem_of_blank hw (by simp))
    obtain ⟨t, rfl, -⟩ := h₁.eq_cons (c := '}') (by simp)
    exact .inl ⟨w, t, hw, rfl⟩
  · simp only [keyText, List.append_assoc, List.singleton_append] at h
    obtain ⟨_, _, rfl, h₁⟩ := h.eq_append (not_mem_of_blank hw₀ (by simp))
    obtain ⟨_, rfl, h₂⟩ := h₁.eq_cons (c := ',') (by simp)
    obtain ⟨_, _, rfl, h₃⟩ := h₂.eq_append (not_mem_of_blank hparts.space (by simp))
    obtain ⟨_, q₁, _, hq₁, rfl, h₄⟩ := h₃.eq_quote hparts.opens
    obtain ⟨_, _, rfl, h₅⟩ := h₄.eq_append (hparts.key.not_mem (by simp))
    obtain ⟨_, q₁', _, hq₁', rfl, h₆⟩ := h₅.eq_quote hparts.closes
    obtain ⟨_, _, rfl, h₇⟩ := h₆.eq_append (not_mem_of_blank hparts.space' (by simp))
    obtain ⟨t, rfl, -⟩ := h₇.eq_cons (c := ':') (by simp)
    exact .inr ⟨w₀, w, q₁, k, q₁', w', t, hw₀, ⟨hparts.space, hq₁, hparts.key, hq₁', hparts.space'⟩,
      by simp [keyText]⟩

/-- Without backslashes in front of structural quotes an unescaped text stays. -/
lemma self {front s t : Str} (h : Stripped front s t)
    (hclean : ∀ a b, s = a ++ '\\' :: '\\' :: '"' :: b → ModelApi.Gemma.closesValue b = false)
    (hfirst : front.getLast? = some '\\' →
      ∀ b, s = '\\' :: '"' :: b → ModelApi.Gemma.closesValue b = false) :
    Stripped front t t ∧ blind t = blind s ∧
      (front.getLast? = some '\\' → s.head? ≠ some '"' → t.head? ≠ some '"') := by
  induction h with
  | nil => exact ⟨.nil, rfl, fun _ h => h⟩
  | @structural front s t hquote h ih =>
    obtain ⟨ht, hblind, -⟩ := ih (fun a b hs => hclean ('\\' :: '"' :: a) b (by rw [hs]; rfl))
      (by simp)
    refine ⟨.char (by simp) ht, ?_, ?_⟩
    · rw [blind_cons_of_ne (by simp), hblind, blind_escaped]
    · intro hlast
      have := closesValue_of_structural hlast hquote
      rw [hfirst hlast s rfl] at this
      cases this
  | @data front s t hquote h ih =>
    obtain ⟨ht, hblind, -⟩ := ih (fun a b hs => hclean ('\\' :: '"' :: a) b (by rw [hs]; rfl))
      (by simp)
    refine ⟨.data (by rwa [hblind]) ht, ?_, fun _ _ => by simp⟩
    rw [blind_escaped, blind_escaped, hblind]
  | @char front s t c hc h ih =>
    have hnext : (front ++ [c]).getLast? = some '\\' → ∀ b, s = '\\' :: '"' :: b →
        ModelApi.Gemma.closesValue b = false := by
      rintro hlast b rfl
      rw [List.getLast?_concat] at hlast
      obtain rfl := Option.some.inj hlast
      exact hclean [] b rfl
    obtain ⟨ht, hblind, hhead⟩ := ih (fun a b hs => hclean (c :: a) b (by rw [hs]; rfl)) hnext
    have hc' : ¬ (c = '\\' ∧ t.head? = some '"') := by
      rintro ⟨rfl, hquote⟩
      exact hhead (by simp) (fun hs => hc ⟨rfl, hs⟩) hquote
    exact ⟨.char hc' ht, by rw [blind_cons hc', blind_cons hc, hblind], fun _ h => h⟩

end Stripped

/-! ### Twice -/

lemma unEscaped_spec (x : Str) : ∃ y, unEscaped x = .ok y ∧ Stripped [] x y := by
  obtain ⟨rewritten, hok, h⟩ := unEscapeStructuralQuotes_stripped x
  exact ⟨rewritten.getD x, by rw [unEscaped, hok, ok_bind]; rfl, h⟩

/-- Unescaping twice yields the same as unescaping once if and only if no quote in front of the end
of a value has two backslashes in front of it. -/
theorem unEscaped_unEscaped_iff (x : Str) :
    (do unEscaped (← unEscaped x)) = unEscaped x ↔
      ∀ a b, x = a ++ '\\' :: '\\' :: '"' :: b → closesValue b = false := by
  obtain ⟨y, hy, hxy⟩ := unEscaped_spec x
  obtain ⟨z, hz, hyz⟩ := unEscaped_spec y
  have hiff : (do unEscaped (← unEscaped x)) = unEscaped x ↔ z = y := by
    rw [hy, ok_bind, hz, Except.ok.injEq]
  rw [hiff]
  constructor
  · rintro rfl a b rfl
    by_contra hcloses
    rw [Bool.not_eq_false] at hcloses
    rw [List.append_cons] at hxy
    obtain ⟨a', s', rfl, -, hlast, hs⟩ := hxy.exists_append (by simp)
    obtain ⟨e, rfl⟩ := List.getLast?_eq_some_iff.mp (hlast (by simp))
    cases hs with
    | @structural _ _ t hquote h =>
      have hstructural := structural_of_closesValue (h.closesValue hcloses) (blind e)
      rw [List.append_assoc] at hyz
      exact hyz.not_structural hstructural
    | data hdata _ => exact hdata (structural_of_closesValue hcloses _)
    | char hc _ => exact hc ⟨rfl, rfl⟩
  · intro hclean
    obtain ⟨hself, -, -⟩ := hxy.self hclean nofun
    exact hyz.unique hself

/-- `\\"}`, which becomes `\"}` and then `"}`. -/
def doubledText : Str := ['\\', '\\', '"', '}']

theorem not_unEscaped_unEscaped :
    ¬ ∀ x, (do unEscaped (← unEscaped x)) = unEscaped x := by
  intro h
  exact absurd (h doubledText) (by decide)

end ModelApi.Gemma
