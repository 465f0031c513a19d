import ModelApi.Gemma.Keys
import ModelApi.Gemma.Pass

/-!
# The repair layers as passes

What each layer does to a rendering: leaked tokens become quotes, bare keys are quoted, and
characters that JSON wants escaped are escaped. Where a style has none of that, the layer changes
nothing.
-/

namespace ModelApi.Gemma

open Lib Lib.Str

variable {style style' : Style} {same : Prop}

/-! ### Characters outside of strings -/

/-- The characters of bare keys, literals and numbers. -/
def isWordChar (c : Char) : Bool := isIdentByte c || c == '-' || c == '+' || c == '.'

lemma isIdentByte_of_isDigit {c : Char} (h : isDigit c = true) : isIdentByte c = true := by
  simp only [isDigit, Bool.and_eq_true] at h
  simp [isIdentByte, isAsciiAlphanumeric, h]

lemma isWordChar_of_isIdentByte {c : Char} (h : isIdentByte c = true) : isWordChar c = true := by
  simp [isWordChar, h]

lemma isWordChar_of_isNumberChar {c : Char} (h : isNumberChar c = true) : isWordChar c = true := by
  simp only [isNumberChar, Bool.or_eq_true, beq_iff_eq] at h
  rcases h with ((((h | rfl) | rfl) | rfl) | rfl) | rfl
  · exact isWordChar_of_isIdentByte (isIdentByte_of_isDigit h)
  all_goals decide

lemma isWordChar_of_isScalar {t : Str} (h : IsScalar t) : ∀ c ∈ t, isWordChar c = true := by
  cases h with
  | number h =>
    exact fun c hc => isWordChar_of_isNumberChar (isNumberChar_of_isNumberLiteral h c hc)
  | null => simp; decide
  | true => simp; decide
  | false => simp; decide

/-- What a pass copies where it is not in a string. -/
structure Copied (c : Char) : Prop where
  isAscii : isAscii c
  ne_quote : c ≠ '"'
  ne_less : c ≠ '<'

lemma copied_of_isWordChar {c : Char} (h : isWordChar c = true) : Copied c := by
  refine ⟨?_, ?_, ?_⟩
  · simp only [isWordChar, Bool.or_eq_true, beq_iff_eq] at h
    rcases h with ((h | rfl) | rfl) | rfl
    · exact isAscii_of_isIdentByte h
    all_goals decide
  · rintro rfl
    revert h
    decide
  · rintro rfl
    revert h
    decide

lemma copied_of_isJsonSpace {c : Char} (h : isJsonSpace c = true) : Copied c := by
  simp only [isJsonSpace, Bool.or_eq_true, beq_iff_eq] at h
  rcases h with ((rfl | rfl) | rfl) | rfl <;> exact ⟨by decide, by decide, by decide⟩

lemma copied_of_mem_marks {c : Char} (h : c ∈ marks) : Copied c := by
  simp only [marks, List.mem_cons, List.not_mem_nil, or_false] at h
  rcases h with rfl | rfl | rfl | rfl | rfl | rfl <;> exact ⟨by decide, by decide, by decide⟩

section Copying

variable {f : Str → Str} (hcopy : ∀ c s, Copied c → f (c :: s) = c :: f s)

include hcopy in
lemma copy_append {t : Str} (ht : ∀ c ∈ t, Copied c) (rest : Str) :
    f (t ++ rest) = t ++ f rest := by
  induction t with
  | nil => rfl
  | cons c t ih =>
    obtain ⟨hc, ht⟩ := List.forall_mem_cons.mp ht
    rw [List.cons_append, hcopy _ _ hc, ih ht]
    rfl

include hcopy in
lemma copy_bare {k w : Str} {sep : Char} (hk : IsIdent k) (hw : Space w)
    (hsep : sep = ':' ∨ sep = '=') (rest : Str) :
    f (k ++ w ++ [sep] ++ rest) = k ++ w ++ [sep] ++ f rest := by
  apply copy_append hcopy
  intro c hc
  rw [List.mem_append, List.mem_append, List.mem_singleton] at hc
  rcases hc with (hc | hc) | rfl
  · exact copied_of_isWordChar (isWordChar_of_isIdentByte (hk.2 c hc))
  · exact copied_of_isJsonSpace (hw c hc)
  · rcases hsep with rfl | rfl <;> exact ⟨by decide, by decide, by decide⟩

/-- A pass that copies what is not in a string. -/
def Pass.copying (hnil : f [] = [])
    (hbare : style.bareKeys = true → style'.bareKeys = true ∧ style'.equals = style.equals ∧
      ∀ k, style.content k → style'.content k)
    (hstring : ∀ t s, StringLit style t s → ∃ t', StringLit style' t' s ∧ (same → t' = t) ∧
      ∀ rest, rest.head? ≠ some '|' → f (t ++ rest) = t' ++ f rest) : Pass style style' same where
  run _ := f
  nil _ := hnil
  space _ c s hc := hcopy c s (copied_of_isJsonSpace hc)
  mark _ c s hc := hcopy c s (copied_of_mem_marks hc)
  scalar t ht _ rest _ :=
    copy_append hcopy (fun c hc => copied_of_isWordChar (isWordChar_of_isScalar ht c hc)) rest
  string t s h := by
    obtain ⟨t', ht', hsame, hrun⟩ := hstring t s h
    exact ⟨t', ht', hsame, fun _ => hrun⟩
  bare hstyle k w sep hk hs hw hsep := by
    obtain ⟨hbare', hequals, hcontent⟩ := hbare hstyle
    rcases hsep with rfl | ⟨rfl, heq⟩
    · exact ⟨_, .bare hbare' hk (hcontent k hs) hw, fun _ => rfl,
        copy_bare hcopy hk hw (.inl rfl)⟩
    · exact ⟨_, .equals hbare' (hequals.trans heq) hk (hcontent k hs) hw, fun _ => rfl,
        copy_bare hcopy hk hw (.inr rfl)⟩

end Copying

/-! ### Characters of escapes -/

lemma isIdentByte_of_hexDigit {c : Char} {n : ℕ} (h : hexDigit c = some n) :
    isIdentByte c = true := by
  rw [hexDigit] at h
  simp only [isIdentByte, isAsciiAlphanumeric, isAsciiAlphabetic]
  split_ifs at h with h₁ h₂ h₃
  · simp [h₁]
  · have : c ≤ 'z' := h₂.2.trans (by decide)
    simp [h₂.1, this]
  · have : c ≤ 'Z' := h₃.2.trans (by decide)
    simp [h₃.1, this]

lemma hex4_append {f : Str → Str} (hident : ∀ c s, isIdentByte c = true → f (c :: s) = c :: f s)
    {a b c d : Char} {n : ℕ} (h : hex4 a b c d = some n) (s : Str) :
    f (a :: b :: c :: d :: s) = a :: b :: c :: d :: f s := by
  simp only [hex4, Option.bind_eq_bind, Option.bind_eq_some_iff] at h
  obtain ⟨_, ha, _, hb, _, hc, _, hd, -⟩ := h
  rw [hident _ _ (isIdentByte_of_hexDigit ha), hident _ _ (isIdentByte_of_hexDigit hb),
    hident _ _ (isIdentByte_of_hexDigit hc), hident _ _ (isIdentByte_of_hexDigit hd)]

lemma isValidEscape_of_shortEscape {e c : Char} (h : shortEscape e = some c) :
    isValidEscape e = true := by
  rw [shortEscape] at h
  split_ifs at h
  all_goals
    subst_vars
    decide

/-- A scanner that copies a backslash with a letter that JSON knows behind it, and copies word
characters, copies the escapes of a rendering. -/
lemma escape_append {f : Str → Str}
    (hescape : ∀ x s, isValidEscape x = true → f ('\\' :: x :: s) = '\\' :: x :: f s)
    (hident : ∀ c s, isIdentByte c = true → f (c :: s) = c :: f s)
    {e : Str} {c : Char} (he : Unescapes e c) (s : Str) :
    f ('\\' :: (e ++ s)) = '\\' :: (e ++ f s) := by
  cases he with
  | short h => exact hescape _ _ (isValidEscape_of_shortEscape h)
  | @unicode a b c d n h hn =>
    calc f ('\\' :: 'u' :: a :: b :: c :: d :: s)
      _ = '\\' :: 'u' :: f (a :: b :: c :: d :: s) := hescape 'u' _ (by decide)
      _ = '\\' :: 'u' :: a :: b :: c :: d :: f s := by rw [hex4_append hident h]
  | @pair a b c d a' b' c' d' n n' h hn h' hn' =>
    calc f ('\\' :: 'u' :: a :: b :: c :: d :: '\\' :: 'u' :: a' :: b' :: c' :: d' :: s)
      _ = '\\' :: 'u' :: f (a :: b :: c :: d :: '\\' :: 'u' :: a' :: b' :: c' :: d' :: s) :=
        hescape 'u' _ (by decide)
      _ = '\\' :: 'u' :: a :: b :: c :: d :: f ('\\' :: 'u' :: a' :: b' :: c' :: d' :: s) := by
        rw [hex4_append hident h]
      _ = '\\' :: 'u' :: a :: b :: c :: d :: '\\' :: 'u' :: a' :: b' :: c' :: d' :: f s := by
        rw [hescape 'u' _ (by decide), hex4_append hident h']

/-- What stands between quotes does not depend on the rest of a style. -/
lemma Chars.weaken {t s : Str} (h : Chars style t s)
    (hraw : style.rawControls = true → style'.rawControls = true)
    (hlone : style.loneBackslashes = true → style'.loneBackslashes = true) : Chars style' t s := by
  induction h with
  | nil => exact .nil
  | plain hquote hbackslash hc _ ih => exact .plain hquote hbackslash hc ih
  | escape he _ ih => exact .escape he ih
  | rawControl hstyle hc _ ih => exact .rawControl (hraw hstyle) hc ih
  | lone hstyle hx _ ih => exact .lone (hlone hstyle) hx ih

/-- A control character is no other character. -/
lemma ne_of_control {c d : Char} (hc : c.toNat < 0x20) (hd : ¬ d.toNat < 0x20) : c ≠ d := by
  rintro rfl
  exact hd hc

/-! ### Bytes -/

lemma bytes_cons_of_isAscii {c : Char} (hc : isAscii c) (s : Str) :
    bytes (c :: s) = c :: bytes s := by
  rw [bytes_cons, encodeChar_of_isAscii hc]
  rfl

lemma bytes_chars {t s : Str} (h : Chars style t s) (hs : ∀ c ∈ s, isAscii c) (u : Str) :
    bytes (t ++ u) = t ++ bytes u := by
  have hbackslash : ∀ s, bytes ('\\' :: s) = '\\' :: bytes s := bytes_cons_of_isAscii (by decide)
  induction h with
  | nil => rfl
  | plain _ _ _ _ ih =>
    obtain ⟨hc, hs⟩ := List.forall_mem_cons.mp hs
    rw [List.cons_append, bytes_cons_of_isAscii hc, ih hs]
    rfl
  | @escape e t s c he _ ih =>
    have hescape : ∀ x s, isValidEscape x = true →
        bytes ('\\' :: x :: s) = '\\' :: x :: bytes s := by
      intro x s hx
      rw [hbackslash, bytes_cons_of_isAscii (isAscii_of_isValidEscape hx)]
    have hident : ∀ c s, isIdentByte c = true → bytes (c :: s) = c :: bytes s :=
      fun c s hc => bytes_cons_of_isAscii (isAscii_of_isIdentByte hc) s
    have hcopied := escape_append hescape hident he (t ++ u)
    rw [ih (List.forall_mem_cons.mp hs).2] at hcopied
    simpa using hcopied
  | rawControl _ _ _ ih =>
    obtain ⟨hc, hs⟩ := List.forall_mem_cons.mp hs
    rw [List.cons_append, bytes_cons_of_isAscii hc, ih hs]
    rfl
  | lone _ _ _ ih =>
    rw [List.cons_append, hbackslash, ih (List.forall_mem_cons.mp hs).2]
    rfl

lemma bytes_quote {q : Str} (hq : Quote style q) (s : Str) : bytes (q ++ s) = q ++ bytes s := by
  have hascii : ∀ c ∈ q, isAscii c := by
    cases hq with
    | plain => simp; decide
    | leaked => simp [Gemma4ToolFormat.QUOTE_TOKEN]; decide
  rw [bytes_append, bytes_of_isAscii hascii]

/-- The bytes of a rendering with ASCII content are the rendering. -/
def bytesPass (hend : style.loneBeforeToken = false)
    (hcontent : ∀ s, style.content s → ∀ c ∈ s, isAscii c) : Pass style style True :=
  .copying (f := bytes) (fun c s hc => bytes_cons_of_isAscii hc.isAscii s) rfl
    (fun hbare => ⟨hbare, rfl, fun _ => id⟩) <| by
      intro t s h
      refine ⟨t, h, fun _ => rfl, ?_⟩
      intro rest _
      cases h with
      | @quoted q q' t s hq ht hq' hs =>
        simp only [List.append_assoc]
        rw [bytes_quote hq, bytes_chars ht (hcontent s hs), bytes_quote hq']
      | loneEnd hstyle =>
        rw [hend] at hstyle
        cases hstyle

/-! ### Leaked tokens -/

namespace Leak

/-- Leaked tokens become quotes. -/
def unleak (s : Str) : Str := replace s Gemma4ToolFormat.QUOTE_TOKEN ['"']

lemma unleak_cons {c : Char} {s : Str} (h : ¬ Gemma4ToolFormat.QUOTE_TOKEN <+: c :: s) :
    unleak (c :: s) = c :: unleak s := by
  rw [unleak, replace, replaceSkip, if_neg h]
  rfl

lemma unleak_ne {c : Char} (hc : c ≠ '<') (s : Str) : unleak (c :: s) = c :: unleak s := by
  apply unleak_cons
  intro h
  exact hc (List.cons_prefix_cons.mp h).1.symm

lemma unleak_quote {q : Str} (hq : Quote style q) (s : Str) :
    unleak (q ++ s) = '"' :: unleak s := by
  cases hq with
  | plain => exact unleak_ne (by decide) s
  | leaked => simp [unleak, replace, replaceSkip, Gemma4ToolFormat.QUOTE_TOKEN]

/-- Text that does not continue a special token. -/
structure Apart (s : Str) : Prop where
  bar : ¬ ['|', '"', '|', '>'] <+: s
  quote : ¬ ['"', '|', '>'] <+: s

lemma apart_cons {c : Char} {s : Str} (hquote : c ≠ '"') (h : c = '|' → Apart s) :
    Apart (c :: s) where
  bar hpre := by
    obtain ⟨hc, hpre⟩ := List.cons_prefix_cons.mp hpre
    exact (h hc.symm).quote hpre
  quote hpre := hquote (List.cons_prefix_cons.mp hpre).1.symm

lemma apart_chars {t s u : Str} (h : Chars style t s) (hu : Apart u) : Apart (t ++ u) := by
  induction h with
  | nil => exact hu
  | plain hquote _ _ _ ih => exact apart_cons hquote fun _ => ih
  | escape => exact apart_cons (by decide) nofun
  | rawControl _ hc _ ih =>
    exact apart_cons (ne_of_control hc (by decide)) fun _ => ih
  | lone => exact apart_cons (by decide) nofun

lemma apart_quote {q rest : Str} (hq : Quote style q) (hrest : rest.head? ≠ some '|') :
    Apart (q ++ rest) := by
  cases hq with
  | leaked =>
    change Apart ('<' :: (['|', '"', '|', '>'] ++ rest))
    exact apart_cons (by decide) fun h => absurd h (by decide)
  | plain =>
    constructor
    · intro hpre
      exact absurd (List.cons_prefix_cons.mp hpre).1 (by decide)
    · intro hpre
      obtain ⟨r, rfl⟩ := (List.cons_prefix_cons.mp hpre).2
      exact hrest rfl

lemma unleak_chars {t s u : Str} (h : Chars style t s) (hu : Apart u) :
    unleak (t ++ u) = t ++ unleak u := by
  induction h with
  | nil => rfl
  | @plain c t s _ _ _ h ih =>
    have htoken : ¬ Gemma4ToolFormat.QUOTE_TOKEN <+: c :: (t ++ u) :=
      fun hpre => (apart_chars h hu).bar (List.cons_prefix_cons.mp hpre).2
    rw [List.cons_append, unleak_cons htoken, ih]
    rfl
  | @escape e t s c he _ ih =>
    have hescape : ∀ x s, isValidEscape x = true →
        unleak ('\\' :: x :: s) = '\\' :: x :: unleak s := by
      intro x s hx
      have hne : x ≠ '<' := by
        rintro rfl
        cases hx
      rw [unleak_ne (by decide), unleak_ne hne]
    have hident : ∀ c s, isIdentByte c = true → unleak (c :: s) = c :: unleak s :=
      fun c s hc => unleak_ne (copied_of_isWordChar (isWordChar_of_isIdentByte hc)).ne_less s
    have hcopied := escape_append hescape hident he (t ++ u)
    rw [ih] at hcopied
    simpa using hcopied
  | @rawControl c t s _ hc _ ih =>
    have hne : c ≠ '<' := ne_of_control hc (by decide)
    rw [List.cons_append, unleak_ne hne, ih]
    rfl
  | lone _ _ _ ih =>
    rw [List.cons_append, unleak_ne (by decide), ih]
    rfl

end Leak

/-- Without leaked tokens. -/
def Style.unleaked (style : Style) : Style := { style with leakedQuotes := false }

/-- Leaked tokens become quotes. -/
def leakPass (hend : style.loneBeforeToken = false) : Pass style style.unleaked False :=
  .copying (f := Leak.unleak) (fun c s hc => Leak.unleak_ne hc.ne_less s) rfl
    (fun hbare => ⟨hbare, rfl, fun _ => id⟩) <| by
      intro t s h
      cases h with
      | @quoted q q' t s hq ht hq' hs =>
        refine ⟨['"'] ++ t ++ ['"'], .quoted .plain (ht.weaken id id) .plain hs, False.elim, ?_⟩
        intro rest hrest
        simp only [List.append_assoc]
        rw [Leak.unleak_quote hq, Leak.unleak_chars ht (Leak.apart_quote hq' hrest),
          Leak.unleak_quote hq']
        rfl
      | loneEnd hstyle =>
        rw [hend] at hstyle
        cases hstyle

/-! ### Bare keys -/

section BareKeys

variable {prev : Bool}

lemma quoteKeys_plain {c : Char} (hquote : c ≠ '"') (hbackslash : c ≠ '\\') (s : Str) :
    quoteKeys true prev (c :: s) = c :: quoteKeys true prev s := by
  rw [quoteKeys_inString (.inl hbackslash), decide_eq_true hquote]

lemma quoteKeys_chars {t s : Str} (h : Chars style t s) (u : Str) :
    quoteKeys true prev (t ++ u) = t ++ quoteKeys true prev u := by
  induction h with
  | nil => rfl
  | plain hquote hbackslash _ _ ih =>
    rw [List.cons_append, quoteKeys_plain hquote hbackslash, ih]
    rfl
  | @escape e t s c he _ ih =>
    have hident : ∀ c s, isIdentByte c = true →
        quoteKeys true prev (c :: s) = c :: quoteKeys true prev s := by
      intro c s hc
      obtain ⟨hquote, hbackslash, -⟩ := plain_of_isIdentByte hc
      exact quoteKeys_plain hquote hbackslash s
    have hcopied := escape_append (fun x s _ => quoteKeys_escape prev x s) hident he (t ++ u)
    rw [ih] at hcopied
    simpa using hcopied
  | @rawControl c t s _ hc _ ih =>
    have hquote : c ≠ '"' := ne_of_control hc (by decide)
    have hbackslash : c ≠ '\\' := ne_of_control hc (by decide)
    rw [List.cons_append, quoteKeys_plain hquote hbackslash, ih]
    rfl
  | @lone x t s _ hx _ ih =>
    have hquote : x ≠ '"' := by
      rintro rfl
      cases hx
    have hbackslash : x ≠ '\\' := by
      rintro rfl
      cases hx
    -- the scanner skips `x`, which it would copy as well
    rw [List.cons_append, quoteKeys_plain hquote hbackslash] at ih
    rw [List.cons_append, List.cons_append, quoteKeys_escape, (List.cons.inj ih).2]
    rfl

lemma quoteKeys_string {t s : Str} (h : Chars style t s) (rest : Str) :
    quoteKeys false prev ('"' :: (t ++ '"' :: rest)) =
      '"' :: (t ++ '"' :: quoteKeys false false rest) := by
  rw [quoteKeys_quote, quoteKeys_chars h, quoteKeys_inString (.inl (by decide))]
  rfl

lemma isAsciiWhitespace_of_isJsonSpace {c : Char} (h : isJsonSpace c = true) :
    isAsciiWhitespace c = true := by
  simp only [isJsonSpace, Bool.or_eq_true, beq_iff_eq] at h
  rcases h with ((rfl | rfl) | rfl) | rfl <;> decide

lemma isIdentByte_of_isJsonSpace {c : Char} (h : isJsonSpace c = true) : isIdentByte c = false :=
  isIdentByte_of_isAsciiWhitespace (isAsciiWhitespace_of_isJsonSpace h)

/-- Where white space ends. -/
lemma span_isAsciiWhitespace {w s : Str} {c : Char} (hw : Space w)
    (hc : isAsciiWhitespace c = false) :
    (w ++ c :: s).takeWhile isAsciiWhitespace = w ∧
      (w ++ c :: s).dropWhile isAsciiWhitespace = c :: s := by
  apply span_append (fun d hd => isAsciiWhitespace_of_isJsonSpace (hw d hd))
  rintro d ⟨⟩
  exact hc

lemma not_word_of_mem_marks {c : Char} (h : c ∈ marks) :
    c ≠ '"' ∧ isAsciiWhitespace c = false ∧ isIdentStart c = false := by
  simp only [marks, List.mem_cons, List.not_mem_nil, or_false] at h
  rcases h with rfl | rfl | rfl | rfl | rfl | rfl <;> exact ⟨by decide, by decide, by decide⟩

lemma quoteKeys_mark {c : Char} (hc : c ∈ marks) (s : Str) :
    quoteKeys false prev (c :: s) = c :: quoteKeys false (opensKey c) s := by
  by_cases hopen : c = '{' ∨ c = ','
  · rw [quoteKeys_open hopen]
    rcases hopen with rfl | rfl <;> rfl
  · obtain ⟨hquote, hws, hident⟩ := not_word_of_mem_marks hc
    have hstate : opensKey c = false := by simpa [opensKey] using hopen
    rw [hstate, quoteKeys_other hquote hopen (by simp [hws]) (by simp [hident])]

lemma quoteKeys_spaces {w : Str} (hw : Space w) (s : Str) :
    quoteKeys false prev (w ++ s) = w ++ quoteKeys false prev s := by
  induction w with
  | nil => rfl
  | cons c w ih =>
    obtain ⟨hc, hw⟩ := List.forall_mem_cons.mp hw
    rw [List.cons_append, quoteKeys_space (isAsciiWhitespace_of_isJsonSpace hc), ih hw]
    rfl

/-- A bare key is quoted, and its separator becomes a colon. -/
lemma quoteKeys_key {k w : Str} {sep : Char} (hk : IsIdent k) (hw : Space w)
    (hsep : sep = ':' ∨ sep = '=') (rest : Str) :
    quoteKeys false true (k ++ w ++ [sep] ++ rest) =
      ['"'] ++ k ++ ['"'] ++ w ++ [':'] ++ quoteKeys false false rest := by
  have hmark : isAsciiWhitespace sep = false ∧ isIdentByte sep = false := by
    rcases hsep with rfl | rfl <;> exact ⟨rfl, rfl⟩
  obtain ⟨htake, hdrop⟩ := span_isAsciiWhitespace (s := rest) hw hmark.1
  have hbehind : behind (w ++ sep :: rest) = some sep := by
    rw [behind, hdrop]
    rfl
  simp only [List.append_assoc, List.cons_append, List.nil_append]
  rw [quoteKeys_ident_append hk (head_of_behind hbehind hmark.2), hbehind]
  rcases hsep with rfl | rfl
  · have hcolon : quoteKeys false false (':' :: rest) = ':' :: quoteKeys false false rest :=
      quoteKeys_mark (by decide) rest
    rw [if_neg (by decide), if_pos rfl, quoteKeys_spaces hw, hcolon]
  · rw [if_pos rfl, htake, hdrop, List.tail_cons]

lemma not_space_of_isWordChar {c : Char} (h : isWordChar c = true) :
    ¬ (c = '{' ∨ c = ',') ∧ ¬ isAsciiWhitespace c = true := by
  constructor
  · rintro (rfl | rfl) <;> cases h
  · intro hws
    simp only [isAsciiWhitespace, Bool.or_eq_true, beq_iff_eq] at hws
    rcases hws with (((rfl | rfl) | rfl) | rfl) | rfl <;> cases h

/-- A word character is copied, unless an identifier starts where a key may stand. -/
lemma quoteKeys_word {c : Char} (hc : isWordChar c = true)
    (hident : ¬ (prev = true ∧ isIdentStart c = true)) (s : Str) :
    quoteKeys false prev (c :: s) = c :: quoteKeys false false s := by
  obtain ⟨hopen, hws⟩ := not_space_of_isWordChar hc
  exact quoteKeys_other (copied_of_isWordChar hc).ne_quote hopen hws hident

lemma quoteKeys_words {t : Str} (ht : ∀ c ∈ t, isWordChar c = true) (s : Str) :
    quoteKeys false false (t ++ s) = t ++ quoteKeys false false s := by
  induction t with
  | nil => rfl
  | cons c t ih =>
    obtain ⟨hc, ht⟩ := List.forall_mem_cons.mp ht
    rw [List.cons_append, quoteKeys_word hc (by simp), ih ht]
    rfl

/-- A number is no identifier, and a literal is one as a whole. -/
lemma exists_of_isScalar {t : Str} (h : IsScalar t) :
    ∃ c t', t = c :: t' ∧ (isIdentStart c = true → ∀ d ∈ t', isIdentByte d = true) := by
  cases h with
  | null => exact ⟨'n', "ull".toList, rfl, fun _ => by simp; decide⟩
  | true => exact ⟨'t', "rue".toList, rfl, fun _ => by simp; decide⟩
  | false => exact ⟨'f', "alse".toList, rfl, fun _ => by simp; decide⟩
  | number h =>
    obtain ⟨c, t', rfl, hc⟩ := exists_of_isNumberLiteral h
    refine ⟨c, t', rfl, ?_⟩
    intro hstart
    exfalso
    rcases hc with hdigit | rfl
    · simp only [isDigit, Bool.and_eq_true, decide_eq_true_eq] at hdigit
      simp only [isIdentStart, isAsciiAlphabetic, Bool.or_eq_true, Bool.and_eq_true,
        decide_eq_true_eq, beq_iff_eq] at hstart
      have hle : c.toNat ≤ 57 := hdigit.2
      rcases hstart with (⟨h, -⟩ | ⟨h, -⟩) | rfl
      · have hge : 65 ≤ c.toNat := h
        omega
      · have hge : 97 ≤ c.toNat := h
        omega
      · revert hle
        decide
    · cases hstart

lemma Ends.behind {rest : Str} (h : Ends rest) :
    ∀ c ∈ behind rest, c = ',' ∨ c = ']' ∨ c = '}' := by
  rw [Gemma.behind]
  obtain ⟨w, hw, hrest⟩ := exists_skipSpace rest
  cases hskip : skipSpace rest with
  | nil =>
    have hspace : ∀ d ∈ rest, isAsciiWhitespace d = true := by
      rw [hrest, hskip, List.append_nil]
      exact fun d hd => isAsciiWhitespace_of_isJsonSpace (hw d hd)
    rw [List.dropWhile_eq_nil_iff.mpr hspace]
    intro c hc
    cases hc
  | cons d s =>
    have hd := h d (by rw [hskip]; rfl)
    have hws : isAsciiWhitespace d = false := by
      rcases hd with rfl | rfl | rfl <;> decide
    rw [hrest, hskip, (span_isAsciiWhitespace hw hws).2]
    rintro c ⟨⟩
    exact hd

lemma quoteKeys_scalar {t : Str} (ht : IsScalar t) {rest : Str} (hrest : Ends rest) :
    quoteKeys false prev (t ++ rest) = t ++ quoteKeys false false rest := by
  have hwords := isWordChar_of_isScalar ht
  obtain ⟨c, t, rfl, hident⟩ := exists_of_isScalar ht
  obtain ⟨hc, ht⟩ := List.forall_mem_cons.mp hwords
  by_cases hstart : prev = true ∧ isIdentStart c = true
  · obtain ⟨rfl, hstart⟩ := hstart
    have hword : IsIdent (c :: t) :=
      ⟨⟨c, rfl, hstart⟩,
        List.forall_mem_cons.mpr ⟨isIdentByte_of_isIdentStart hstart, hident hstart⟩⟩
    have hhead : ∀ d ∈ rest.head?, isIdentByte d = false := by
      intro d hd
      rcases hrest.head d hd with h | rfl | rfl | rfl
      · exact isIdentByte_of_isJsonSpace h
      all_goals decide
    have heq : behind rest ≠ some '=' := by
      intro h
      rcases hrest.behind '=' h with h | h | h <;> cases h
    have hcolon : behind rest ≠ some ':' := by
      intro h
      rcases hrest.behind ':' h with h | h | h <;> cases h
    rw [quoteKeys_ident_append hword hhead, if_neg heq, if_neg hcolon]
  · rw [List.cons_append, quoteKeys_word hc hstart, quoteKeys_words ht]
    rfl

end BareKeys

/-- With quotes around all keys. -/
def Style.keyed (style : Style) : Style := { style with bareKeys := false, equals := false }

lemma chars_self {t : Str} (ht : ∀ c ∈ t, c ≠ '"' ∧ c ≠ '\\' ∧ 0x20 ≤ c.toNat) :
    Chars style t t := by
  induction t with
  | nil => exact .nil
  | cons c t ih =>
    obtain ⟨⟨hquote, hbackslash, hctl⟩, ht⟩ := List.forall_mem_cons.mp ht
    exact .plain hquote hbackslash hctl (ih ht)

lemma chars_of_isIdent {k : Str} (hk : IsIdent k) : Chars style k k :=
  chars_self fun c hc => plain_of_isIdentByte (hk.2 c hc)

/-- Bare keys are quoted. -/
def keyPass (hleak : style.leakedQuotes = false) (hend : style.loneBeforeToken = false) :
    Pass style style.keyed (style.bareKeys = false) where
  run prev s := quoteKeys false prev s
  nil prev := quoteKeys_nil false prev
  space _ _ _ hc := quoteKeys_space (isAsciiWhitespace_of_isJsonSpace hc)
  mark _ _ s hc := quoteKeys_mark hc s
  scalar _ ht _ _ hrest := quoteKeys_scalar ht hrest
  string t s h := by
    obtain ⟨u, rfl, hu, hs⟩ := exists_of_stringLit hleak hend h
    refine ⟨'"' :: (u ++ ['"']), .quoted .plain (hu.weaken id id) .plain hs, fun _ => rfl, ?_⟩
    intro prev rest _
    have hrun : quoteKeys false prev ('"' :: (u ++ '"' :: rest)) = _ := quoteKeys_string hu rest
    simpa using hrun
  bare hstyle k w sep hk hs hw hsep := by
    have hkey : StringLit style.keyed (['"'] ++ k ++ ['"']) k :=
      .quoted .plain (chars_of_isIdent hk) .plain hs
    refine ⟨['"'] ++ k ++ ['"'] ++ w ++ [':'], .quoted hkey hw, ?_, ?_⟩
    · intro hsame
      rw [hsame] at hstyle
      cases hstyle
    · exact quoteKeys_key hk hw (hsep.imp_right And.left)

/-! ### Escapes -/

lemma escapeControls_plain {c : Char} (hquote : c ≠ '"') (hbackslash : c ≠ '\\')
    (hc : 0x20 ≤ c.toNat) (s : Str) :
    escapeControls true (c :: s) = c :: escapeControls true s := by
  have hctl : ¬ c.toNat ≤ 0x1F := by omega
  cases s <;> simp [escapeControls, hquote, hbackslash, hctl]

/-- A control character is escaped as JSON has it. -/
lemma exists_of_escapeControl {c : Char} (hc : c.toNat < 0x20) :
    ∃ e, escapeControl c = '\\' :: e ∧ Unescapes e c := by
  have hhex : ∀ n < 0x20,
      hex4 '0' '0' (Nat.digitChar (n / 16)) (Nat.digitChar (n % 16)) = some n := by
    decide
  rw [escapeControl]
  split_ifs with hn hr ht
  · exact ⟨['n'], rfl, .short (by rw [hn]; rfl)⟩
  · exact ⟨['r'], rfl, .short (by rw [hr]; rfl)⟩
  · exact ⟨['t'], rfl, .short (by rw [ht]; rfl)⟩
  · refine ⟨_, rfl, ?_⟩
    have h := Unescapes.unicode (hhex c.toNat hc) (.inl (by omega))
    rwa [Char.ofNat_toNat] at h

lemma escapeControls_quote (inString : Bool) (s : Str) :
    escapeControls inString ('"' :: s) = '"' :: escapeControls (!inString) s := by
  cases inString <;> cases s <;> simp [escapeControls]

lemma escapeControls_chars {t s : Str} (h : Chars style t s) :
    ∃ t', Chars .strict t' s ∧
      (style.rawControls = false ∧ style.loneBackslashes = false → t' = t) ∧
      ∀ u, escapeControls true (t ++ u) = t' ++ escapeControls true u := by
  induction h with
  | nil => exact ⟨[], .nil, fun _ => rfl, fun u => rfl⟩
  | @plain c t s hquote hbackslash hc _ ih =>
    obtain ⟨t', ht', hsame, hrun⟩ := ih
    refine ⟨c :: t', .plain hquote hbackslash hc ht', ?_, ?_⟩
    · intro hs
      rw [hsame hs]
    · intro u
      rw [List.cons_append, escapeControls_plain hquote hbackslash hc, hrun]
      rfl
  | @escape e t s c he _ ih =>
    obtain ⟨t', ht', hsame, hrun⟩ := ih
    refine ⟨'\\' :: (e ++ t'), .escape he ht', ?_, ?_⟩
    · intro hs
      rw [hsame hs]
    · intro u
      have hescape : ∀ x s, isValidEscape x = true →
          escapeControls true ('\\' :: x :: s) = '\\' :: x :: escapeControls true s := by
        intro x s hx
        simp [escapeControls, hx]
      have hident : ∀ c s, isIdentByte c = true →
          escapeControls true (c :: s) = c :: escapeControls true s := by
        intro c s hc
        obtain ⟨hquote, hbackslash, hctl⟩ := plain_of_isIdentByte hc
        exact escapeControls_plain hquote hbackslash hctl s
      have hcopied := escape_append hescape hident he (t ++ u)
      rw [hrun] at hcopied
      simpa using hcopied
  | @rawControl c t s hstyle hc _ ih =>
    obtain ⟨t', ht', -, hrun⟩ := ih
    obtain ⟨e, he, hunescapes⟩ := exists_of_escapeControl hc
    refine ⟨'\\' :: (e ++ t'), .escape hunescapes ht', ?_, ?_⟩
    · rintro ⟨hraw, -⟩
      rw [hraw] at hstyle
      cases hstyle
    · intro u
      have hquote : c ≠ '"' := ne_of_control hc (by decide)
      have hbackslash : c ≠ '\\' := ne_of_control hc (by decide)
      have hctl : c.toNat ≤ 0x1F := Nat.le_of_lt_succ hc
      have hcopied : escapeControls true (c :: (t ++ u)) =
          escapeControl c ++ escapeControls true (t ++ u) := by
        cases t ++ u <;> simp [escapeControls, hquote, hbackslash, hctl]
      rw [List.cons_append, hcopied, hrun, he]
      simp
  | @lone x t s hstyle hx _ ih =>
    obtain ⟨t', ht', -, hrun⟩ := ih
    refine ⟨'\\' :: (['\\'] ++ t'), .escape (.short rfl) ht', ?_, ?_⟩
    · rintro ⟨-, hlone⟩
      rw [hlone] at hstyle
      cases hstyle
    · intro u
      have hcopied : escapeControls true ('\\' :: x :: (t ++ u)) =
          '\\' :: '\\' :: escapeControls true (x :: t ++ u) := by
        simp [escapeControls, hx]
      rw [List.cons_append, List.cons_append, hcopied, hrun]
      rfl

/-- What JSON wants escaped is escaped. -/
def escapePass (hkeys : style.bareKeys = false) (hleak : style.leakedQuotes = false)
    (hend : style.loneBeforeToken = false) :
    Pass style .strict (style.rawControls = false ∧ style.loneBackslashes = false) :=
  .copying (f := escapeControls false)
    (fun c s hc => by simp [escapeControls, hc.ne_quote])
    rfl
    (fun hbare => absurd hbare (by simp [hkeys])) <| by
      intro t s h
      obtain ⟨u, rfl, hu, -⟩ := exists_of_stringLit hleak hend h
      obtain ⟨t', ht', hsame, hrun⟩ := escapeControls_chars hu
      refine ⟨'"' :: (t' ++ ['"']), stringLit_strict.mpr ⟨t', rfl, ht'⟩, ?_, ?_⟩
      · intro hs
        rw [hsame hs]
      · intro rest _
        simp [escapeControls_quote, hrun]

end ModelApi.Gemma
