import ModelApi.Gemma.UnEscape
import ModelApi.Gemma.Drift

/-!
# Quotes in values

An escaped quote inside a string is not structural, unless a brace or a comma stands in front of it
or a brace behind it.
-/

namespace ModelApi.Gemma

open Lib Lib.Str

/-! ### Characters of strings -/

lemma isIdentByte_of_hex4 {a b c d : Char} {n : ℕ} (h : hex4 a b c d = some n) :
    ∀ x ∈ [a, b, c, d], isIdentByte x = true := by
  simp only [hex4, Option.bind_eq_bind, Option.bind_eq_some_iff] at h
  obtain ⟨_, ha, _, hb, _, hc, _, hd, -⟩ := h
  simp only [List.forall_mem_cons]
  exact ⟨isIdentByte_of_hexDigit ha, isIdentByte_of_hexDigit hb, isIdentByte_of_hexDigit hc,
    isIdentByte_of_hexDigit hd, by simp⟩

/-- What stands behind the backslash of an escape. -/
lemma Unescapes.eq_or_forall {e : Str} {c : Char} (h : Unescapes e c) :
    (e = ['"'] ∧ c = '"') ∨ ∀ d ∈ e, isIdentByte d = true ∨ d = '\\' ∨ d = '/' := by
  cases h with
  | @short x c h =>
    have hx := isValidEscape_of_shortEscape h
    simp only [isValidEscape, Bool.or_eq_true, beq_iff_eq] at hx
    rcases hx with (((((((rfl | rfl) | rfl) | rfl) | rfl) | rfl) | rfl) | rfl) | rfl
    · exact .inl ⟨rfl, (Option.some.inj h).symm⟩
    all_goals exact .inr (List.forall_mem_singleton.mpr (by decide))
  | @unicode a b c d n h hn =>
    refine .inr (List.forall_mem_cons.mpr ⟨.inl rfl, fun x hx => .inl ?_⟩)
    exact isIdentByte_of_hex4 h x hx
  | @pair a b c d a' b' c' d' n n' h hn h' hn' =>
    have hmem := isIdentByte_of_hex4 h
    have hmem' := isIdentByte_of_hex4 h'
    refine .inr fun x hx => ?_
    have hx' : x ∈ 'u' :: [a, b, c, d] ++ '\\' :: 'u' :: [a', b', c', d'] := hx
    rcases List.mem_append.mp hx' with hx | hx
    · rcases List.mem_cons.mp hx with rfl | hx
      · exact .inl rfl
      · exact .inl (hmem x hx)
    · rcases List.mem_cons.mp hx with rfl | hx
      · exact .inr (.inl rfl)
      · rcases List.mem_cons.mp hx with rfl | hx
        · exact .inl rfl
        · exact .inl (hmem' x hx)

namespace Chars

/-- A character of a text stands for itself or belongs to an escape. -/
lemma cut {e v a b : Str} {c : Char} (h : Chars .strict e v) (hc : c ≠ '\\')
    (heq : e = a ++ c :: b) :
    (∃ v₁ v₂, v = v₁ ++ c :: v₂ ∧ Chars .strict a v₁ ∧ Chars .strict b v₂ ∧ c ≠ '"') ∨
      ∃ a' e₁ e₂ b' x v₁ v₂, a = a' ++ '\\' :: e₁ ∧ b = e₂ ++ b' ∧ Unescapes (e₁ ++ c :: e₂) x ∧
        v = v₁ ++ x :: v₂ ∧ Chars .strict a' v₁ ∧ Chars .strict b' v₂ := by
  induction h generalizing a with
  | nil => simp at heq
  | @plain d t s hquote hbackslash hd h ih =>
    cases a with
    | nil =>
      obtain ⟨rfl, rfl⟩ := List.cons.inj heq
      exact .inl ⟨[], s, rfl, .nil, h, hquote⟩
    | cons d' a =>
      obtain ⟨rfl, htail⟩ := List.cons.inj heq
      rcases ih htail with ⟨v₁, v₂, rfl, ha, hb, hne⟩ |
        ⟨a', e₁, e₂, b', x, v₁, v₂, rfl, rfl, hx, rfl, ha, hb⟩
      · exact .inl ⟨d :: v₁, v₂, rfl, .plain hquote hbackslash hd ha, hb, hne⟩
      · exact .inr ⟨d :: a', e₁, e₂, b', x, d :: v₁, v₂, rfl, rfl, hx, rfl,
          .plain hquote hbackslash hd ha, hb⟩
  | @escape e₀ t s y he h ih =>
    cases a with
    | nil => exact absurd (List.cons.inj heq).1.symm hc
    | cons d a =>
      obtain ⟨rfl, htail⟩ := List.cons.inj heq
      obtain ⟨r, rfl, hr⟩ | ⟨d, r', rfl, hr⟩ : (∃ r, a = e₀ ++ r ∧ t = r ++ c :: b) ∨
          ∃ d r', e₀ = a ++ d :: r' ∧ c :: b = d :: r' ++ t := by
        rcases List.append_eq_append_iff.mp htail with ⟨r, ha, hr⟩ | ⟨r, he₀, hr⟩
        · exact .inl ⟨r, ha, hr⟩
        · cases r with
          | nil => exact .inl ⟨[], by simpa using he₀.symm, hr.symm⟩
          | cons d r' => exact .inr ⟨d, r', he₀, hr⟩
      · rcases ih hr with ⟨v₁, v₂, rfl, ha, hb, hne⟩ |
          ⟨a', e₁, e₂, b', x, v₁, v₂, rfl, rfl, hx, rfl, ha, hb⟩
        · exact .inl ⟨y :: v₁, v₂, rfl, .escape he ha, hb, hne⟩
        · exact .inr ⟨'\\' :: (e₀ ++ a'), e₁, e₂, b', x, y :: v₁, v₂, by simp, rfl, hx, rfl,
            .escape he ha, hb⟩
      · obtain ⟨rfl, rfl⟩ := List.cons.inj hr
        exact .inr ⟨[], a, r', t, y, [], s, rfl, rfl, he, rfl, .nil, h⟩
  | rawControl hstyle => cases hstyle
  | lone hstyle => cases hstyle

/-- A quote in a text is the escape of a quote. -/
lemma exists_of_quote {e v a b : Str} (h : Chars .strict e v) (heq : e = a ++ '"' :: b) :
    ∃ a' v₁ v₂, a = a' ++ ['\\'] ∧ v = v₁ ++ '"' :: v₂ ∧ Chars .strict a' v₁ ∧
      Chars .strict b v₂ := by
  rcases h.cut (by simp) heq with ⟨_, _, _, _, _, hne⟩ |
    ⟨a', e₁, e₂, b', x, v₁, v₂, rfl, rfl, hx, rfl, ha, hb⟩
  · exact absurd rfl hne
  · rcases hx.eq_or_forall with ⟨heq, rfl⟩ | hforall
    · obtain ⟨rfl, hnil⟩ | ⟨r, rfl, hr⟩ := List.append_eq_cons_iff.mp heq
      · obtain rfl : e₂ = [] := (List.cons.inj hnil).2
        exact ⟨a', v₁, v₂, rfl, rfl, ha, hb⟩
      · simp at hr
    · exact absurd (hforall '"' (by simp)) (by decide)

/-- A character that is in no escape stands for itself. -/
lemma exists_of_free {e v a b : Str} {c : Char} (h : Chars .strict e v)
    (hc : isIdentByte c = false ∧ c ≠ '\\' ∧ c ≠ '/' ∧ c ≠ '"') (heq : e = a ++ c :: b) :
    ∃ v₁ v₂, v = v₁ ++ c :: v₂ ∧ Chars .strict a v₁ ∧ Chars .strict b v₂ := by
  obtain ⟨hident, hbackslash, hslash, hquote⟩ := hc
  rcases h.cut hbackslash heq with ⟨v₁, v₂, hv, ha, hb, -⟩ |
    ⟨a', e₁, e₂, b', x, v₁, v₂, rfl, rfl, hx, rfl, ha, hb⟩
  · exact ⟨v₁, v₂, hv, ha, hb⟩
  · exfalso
    rcases hx.eq_or_forall with ⟨heq, rfl⟩ | hforall
    · have hmem : c ∈ ['"'] := by
        rw [← heq]
        simp
      exact hquote (List.mem_singleton.mp hmem)
    · rcases hforall c (by simp) with h | h | h
      · rw [hident] at h
        cases h
      · exact hbackslash h
      · exact hslash h

lemma eq_of_not_mem {e v : Str} (h : Chars .strict e v) (he : '\\' ∉ e) : v = e := by
  induction h with
  | nil => rfl
  | plain _ _ _ _ ih =>
    rw [List.mem_cons, not_or] at he
    rw [ih he.2]
  | escape => simp at he
  | rawControl hstyle => cases hstyle
  | lone hstyle => cases hstyle

end Chars

/-! ### Quotes in a value -/

/-- No quote stands behind `{` or `,`, and none in front of `}`, with white space between them or
not. -/
def QuotesApart (v : Str) : Prop :=
  ∀ a b, v = a ++ '"' :: b →
    (trimEnd a).getLast? ≠ some '{' ∧ (trimEnd a).getLast? ≠ some ',' ∧
      (trimStart b).head? ≠ some '}'

lemma quotesApart_iff {v : Str} : QuotesApart v ↔ ∀ i < v.length, (v.drop i).head? = some '"' →
    (trimEnd (v.take i)).getLast? ≠ some '{' ∧ (trimEnd (v.take i)).getLast? ≠ some ',' ∧
      (trimStart (v.drop (i + 1))).head? ≠ some '}' := by
  constructor
  · intro h i hi hquote
    obtain ⟨b, hb⟩ := List.head?_eq_some_iff.mp hquote
    have hbehind : v.drop (i + 1) = b := by rw [← List.drop_drop, hb, List.drop_one, List.tail_cons]
    rw [hbehind]
    exact h _ _ (by rw [← hb, List.take_append_drop])
  · rintro h a b rfl
    simpa using h a.length (by simp) (by simp)

instance (v : Str) : Decidable (QuotesApart v) := decidable_of_iff _ quotesApart_iff.symm

lemma QuotesApart.front {a b l w : Str} {d : Char} (h : QuotesApart (a ++ '"' :: b))
    (hd : d = '{' ∨ d = ',') (hw : Blank w) : a ≠ l ++ d :: w := by
  rintro rfl
  have hlast : trimEnd (l ++ d :: w) = l ++ [d] := by
    have hd' : isWhitespace d = false := by
      rcases hd with rfl | rfl <;> rfl
    have hw' : ∀ c ∈ w.reverse, isWhitespace c = true := fun c hc => hw c (List.mem_reverse.mp hc)
    rw [List.append_cons, trimEnd, List.rdropWhile, List.reverse_append,
      List.dropWhile_append_of_pos hw', List.reverse_append]
    simp [hd']
  obtain ⟨hbrace, hcomma, -⟩ := h _ b rfl
  rw [hlast, List.getLast?_concat] at hbrace hcomma
  rcases hd with rfl | rfl
  · exact hbrace rfl
  · exact hcomma rfl

lemma QuotesApart.back {a b w r : Str} (h : QuotesApart (a ++ '"' :: b)) (hw : Blank w) :
    b ≠ w ++ '}' :: r := by
  rintro rfl
  obtain ⟨-, -, hbrace⟩ := h a _ rfl
  rw [trimStart, List.dropWhile_append_of_pos hw] at hbrace
  exact hbrace rfl

lemma suffix_of_quote_append {x a l u : Str} (hu : '"' ∉ u) (h : x ++ '"' :: a = l ++ u) :
    ∃ l', a = l' ++ u := by
  rcases List.append_eq_append_iff.mp h with ⟨r, rfl, hr⟩ | ⟨r, rfl, hr⟩
  · cases r with
    | nil =>
      rw [List.nil_append] at hr
      rw [← hr] at hu
      simp at hu
    | cons c r => exact ⟨r, (List.cons.inj hr).2⟩
  · rw [hr] at hu
    simp at hu

/-- The last quote of a text. -/
lemma lastQuote {x a y k : Str} (hk : '"' ∉ k) (h : x ++ '"' :: a = y ++ '"' :: k) :
    (a = k ∧ x = y) ∨ ∃ a', a = a' ++ '"' :: k ∧ y = x ++ '"' :: a' := by
  rcases List.append_eq_append_iff.mp h with ⟨r, rfl, hr⟩ | ⟨r, rfl, hr⟩
  · cases r with
    | nil => exact .inl ⟨(List.cons.inj hr).2, by simp⟩
    | cons c r =>
      obtain ⟨rfl, ha⟩ := List.cons.inj hr
      exact .inr ⟨r, ha, rfl⟩
  · cases r with
    | nil => exact .inl ⟨(List.cons.inj hr).2.symm, by simp⟩
    | cons c r =>
      rw [(List.cons.inj hr).2] at hk
      simp at hk

namespace Chars

variable {e v : Str}

lemma suffix (h : Chars .strict e v) {l w : Str} {d : Char} (hd : d = '{' ∨ d = ',') (hw : Blank w)
    (heq : blind e = l ++ d :: w) : ∃ l', v = l' ++ d :: w := by
  have hmark : d ∈ ['{', '}', ',', ':'] := by
    rcases hd with rfl | rfl <;> decide
  have hfree : isIdentByte d = false ∧ d ≠ '\\' ∧ d ≠ '/' ∧ d ≠ '"' := by
    rcases hd with rfl | rfl <;> decide
  obtain ⟨a, s, rfl, -, hs⟩ := exists_of_blind_eq_mark hmark heq
  obtain rfl := eq_of_blind_plain (not_mem_of_blank hw (by simp)) hs
  obtain ⟨v₁, v₂, rfl, -, hw'⟩ := h.exists_of_free hfree rfl
  rw [hw'.eq_of_not_mem (not_mem_of_blank hw (by simp))]
  exact ⟨v₁, rfl⟩

lemma quote (h : Chars .strict e v) {x y : Str} (heq : blind e = x ++ '"' :: y) :
    ∃ a v₁ v₂, blind a = x ∧ v = v₁ ++ '"' :: v₂ ∧ Chars .strict a v₁ := by
  obtain ⟨a, b, rfl, rfl, hb, hcut⟩ := exists_of_blind_eq_append heq
  obtain ⟨q, b, rfl, hq, -⟩ := exists_of_blind_eq_quote hb
  cases hq with
  | plain =>
    obtain ⟨a', v₁, v₂, rfl, -, -, -⟩ := h.exists_of_quote rfl
    exact absurd ⟨List.getLast?_concat, rfl⟩ hcut
  | escaped =>
    obtain ⟨a', v₁, v₂, ha', rfl, ha, -⟩ := h.exists_of_quote (List.append_cons a '\\' ('"' :: b))
    rw [List.append_cancel_right ha']
    exact ⟨a', v₁, v₂, rfl, rfl, ha⟩

/-- In front of a quote in a value there is no key. -/
lemma not_key (h : Chars .strict e v) {w : Str} (happart : QuotesApart (v ++ '"' :: w))
    {z l w' k : Str} {d : Char} (hd : d = '{' ∨ d = ',') (hw' : Blank w') (hk : '"' ∉ k) :
    z ++ ':' :: '"' :: blind e ≠ l ++ d :: (w' ++ '"' :: k) := by
  intro heq
  rw [List.append_cons, ← List.cons_append, ← List.append_assoc] at heq
  rcases lastQuote hk heq with ⟨-, hz⟩ | ⟨x, hx, hl⟩
  · -- the quote that opens the value has a colon in front of it
    have hcolon := congrArg List.getLast? hz
    rw [List.getLast?_concat, List.getLast?_append_cons] at hcolon
    have hmem := List.mem_of_getLast? hcolon.symm
    rcases List.mem_cons.mp hmem with rfl | hmem
    · rcases hd with hd | hd <;> cases hd
    · exact not_mem_of_blank hw' (by simp) hmem
  · obtain ⟨a, v₁, v₂, rfl, rfl, ha⟩ := h.quote hx
    have hquote : '"' ∉ d :: w' := by
      rw [List.mem_cons, not_or]
      refine ⟨?_, not_mem_of_blank hw' (by simp)⟩
      rcases hd with rfl | rfl <;> decide
    obtain ⟨l', hl'⟩ := suffix_of_quote_append hquote hl.symm
    obtain ⟨l', rfl⟩ := ha.suffix hd hw' hl'
    rw [List.append_assoc, List.cons_append] at happart
    exact happart.front hd hw' rfl

/-- A quote in a value is not structural. -/
lemma not_structural {a b : Str} (h : Chars .strict e v) (heq : e = a ++ '\\' :: '"' :: b)
    (happart : QuotesApart v) {z s r : Str} {c : Char} (hs : s.head? ≠ some '"')
    (hc : c = '}' ∨ c = ',') (hr : blind s = '"' :: c :: r) :
    ¬ Structural (z ++ ':' :: '"' :: blind a) (blind (b ++ s)) := by
  obtain ⟨a', v₁, v₂, ha', rfl, ha, hb⟩ := h.exists_of_quote (heq.trans (List.append_cons ..))
  obtain rfl := List.append_cancel_right ha'
  rw [blind_append fun h => hs h.2, hr]
  generalize hfront : z ++ ':' :: '"' :: blind a = front
  generalize hback : blind b ++ '"' :: c :: r = back
  intro hstructural
  cases hstructural with
  | @last _ w r' hw =>
    have hplain : ∀ x ∈ ['"', '\\'], x ∉ w ++ ['}'] := by
      simp only [List.forall_mem_cons]
      simp [not_mem_of_blank hw]
    obtain ⟨y, hy, -⟩ := exists_of_append_eq_quote (hplain _ (by simp)) (hplain _ (by simp)) .plain
      (List.append_cons w '}' r' ▸ hback.symm)
    rw [List.append_assoc] at hy
    obtain ⟨b', rfl, -⟩ := exists_of_blind_eq_space hw (by simp) hy
    obtain ⟨x, y', rfl, hx, -⟩ := hb.exists_of_free (by decide) rfl
    rw [hx.eq_of_not_mem (not_mem_of_blank hw (by simp))] at happart
    exact happart.back hw rfl
  | @value _ w w' k w'' r' hw hw' hk hw'' =>
    have hplain : ∀ x ∈ ['"', '\\'], x ∉ w ++ ',' :: w' := by
      simp only [List.forall_mem_cons]
      simp [not_mem_of_blank hw, not_mem_of_blank hw']
    rw [← List.cons_append, ← List.append_assoc] at hback
    obtain ⟨y, hy, hrest⟩ := exists_of_append_eq_quote (hplain _ (by simp)) (hplain _ (by simp))
      .plain hback.symm
    cases y with
    | nil =>
      -- the quote that closes the value opens no key
      obtain ⟨c', k', rfl, hc', -⟩ := hk
      obtain ⟨rfl, -⟩ := List.cons.inj (List.cons.inj hrest).2
      rcases hc with rfl | rfl <;> cases hc'
    | cons c' y =>
      obtain ⟨rfl, -⟩ := List.cons.inj hrest
      obtain ⟨a₁, x, y', ha₁, rfl, hx⟩ := hb.quote hy
      obtain rfl := eq_of_blind_plain (hplain _ (by simp)) ha₁
      rw [hx.eq_of_not_mem (hplain _ (by simp)), ← List.cons_append, ← List.append_assoc] at happart
      refine happart.front (.inr rfl) hw' (l := v₁ ++ '"' :: w) ?_
      simp
  | @opensKey l w k w' r' d hanchored hw hk hw' =>
    have hd := eq_of_anchored hanchored
    have hquote : '"' ∉ d :: w := by
      rw [List.mem_cons, not_or]
      refine ⟨?_, not_mem_of_blank hw (by simp)⟩
      rcases hd with rfl | rfl <;> decide
    obtain ⟨l', hl'⟩ := suffix_of_quote_append hquote (List.append_cons z _ _ ▸ hfront)
    obtain ⟨l', rfl⟩ := ha.suffix hd hw hl'
    exact happart.front hd hw rfl
  | @closesKey l w k w' r' d hanchored hw hk hw' =>
    exact ha.not_key happart (eq_of_anchored hanchored) hw (hk.not_mem (by simp)) hfront
  | @opensValue l w k w' w'' _ d hd hw hk hw' hw'' =>
    have hquote : '"' ∉ w' ++ ':' :: w'' := by
      simp [not_mem_of_blank hw', not_mem_of_blank hw'']
    have hfront' : (z ++ [':']) ++ '"' :: blind a =
        (l ++ d :: (w ++ '"' :: k)) ++ '"' :: (w' ++ ':' :: w'') := by simpa using hfront
    rcases lastQuote hquote hfront' with ⟨-, hz⟩ | ⟨x, hx, hl⟩
    · -- a key does not end in a colon
      obtain ⟨c', k', rfl, -, -⟩ := id hk
      have hz' : z ++ [':'] = (l ++ d :: (w ++ ['"'])) ++ c' :: k' := by simpa using hz
      have hcolon := congrArg List.getLast? hz'
      rw [List.getLast?_concat, List.getLast?_append_cons] at hcolon
      exact hk.not_mem (by simp) (List.mem_of_getLast? hcolon.symm)
    · obtain ⟨a₁, x₁, y, rfl, rfl, ha₁⟩ := ha.quote hx
      rw [List.append_assoc, List.cons_append] at happart
      have hl' : z ++ ':' :: '"' :: blind a₁ = l ++ d :: (w ++ '"' :: k) := by simpa using hl.symm
      exact ha₁.not_key happart hd hw (hk.not_mem (by simp)) hl'

end Chars

end ModelApi.Gemma
