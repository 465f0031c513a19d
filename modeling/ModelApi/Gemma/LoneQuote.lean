import ModelApi.Gemma.UnEscape
import ModelApi.Gemma.ToolFormat

/-!
# When the recovery of a tool call fails

The last recovery attempt cuts the quotes off a key without looking whether there are two of them.
Everything else returns, so a body is parsed unless it gets there with a single quote for a key.
-/

namespace ModelApi.Gemma

open Lib Lib.Str

variable {N : Type} {json : SerdeJson N}

/-! ### The rescue of a bare value -/

/-- What the rescue takes for the key, with its quotes. -/
def keyPart (quotedKeys : Str) : Option Str :=
  ((stripPrefix quotedKeys.trim ['{']).bind fun t => stripSuffix t ['}']).bind fun t =>
    (splitFirst [':'] t.trim).map fun p => trim p.1

/-- A text that starts and ends with a quote has something between two quotes, unless it is a single
quote. -/
lemma quoted_or_lone {s : Str} (hpre : ['"'] <+: s) (hsuf : ['"'] <:+ s) :
    s = ['"'] ∨ ∃ key, s = ['"'] ++ key ++ ['"'] := by
  obtain ⟨t, rfl⟩ := hpre
  cases t using List.reverseRecOn with
  | nil => exact .inl rfl
  | append_singleton t c =>
    obtain ⟨r, hr⟩ := hsuf
    rw [← List.append_assoc] at hr
    obtain ⟨-, hc⟩ := List.append_inj' hr rfl
    obtain rfl : '"' = c := List.cons.inj hc |>.1
    exact .inr ⟨t, by rw [List.append_assoc]⟩

lemma slice_between_quotes (key : Str) :
    slice (['"'] ++ key ++ ['"']) 1 (len (['"'] ++ key ++ ['"']) - 1) = .ok key := by
  have hlen : len (['"'] ++ key ++ ['"']) - 1 = len ['"'] + key.len := by
    rw [len_append, len_append]
    rfl
  rw [hlen]
  exact slice_append ['"'] key ['"']

lemma bareValueRescue_returns_iff (quotedKeys : Str) :
    (∃ v, bareValueRescue json quotedKeys = .ok v) ↔ keyPart quotedKeys ≠ some ['"'] := by
  rw [bareValueRescue, keyPart]
  cases (stripPrefix quotedKeys.trim ['{']).bind fun t => stripSuffix t ['}'] with
  | none => exact ⟨fun _ => nofun, fun _ => ⟨none, rfl⟩⟩
  | some stripped =>
    simp only [find_eq_splitFirst, Option.bind_some]
    cases hsplit : splitFirst [':'] stripped.trim with
    | none => exact ⟨fun _ => nofun, fun _ => ⟨none, rfl⟩⟩
    | some parts =>
      obtain ⟨front, back⟩ := parts
      have hinner := eq_of_splitFirst hsplit
      have hfront : slice stripped.trim 0 front.len = .ok front := by
        rw [hinner, List.append_assoc]
        simpa using slice_append [] front ([':'] ++ back)
      have hback : sliceFrom stripped.trim (front.len + 1) = .ok back := by
        rw [hinner]
        have := sliceFrom_append (front ++ [':']) back
        rwa [len_append] at this
      simp only [Option.map_some, hfront, hback, ok_bind, pure_eq_ok, ne_eq, Option.some.injEq]
      by_cases hquotes : ['"'] <+: front.trim ∧ ['"'] <:+ front.trim
      · rw [if_neg (by rw [not_or]; exact ⟨not_not_intro hquotes.1, not_not_intro hquotes.2⟩)]
        rcases quoted_or_lone hquotes.1 hquotes.2 with hlone | ⟨key, hkey⟩
        · rw [hlone]
          constructor
          · rintro ⟨v, hv⟩
            cases hv
          · exact fun h => absurd rfl h
        · rw [hkey, slice_between_quotes, ok_bind, hasTopLevelComma_eq, ok_bind]
          refine ⟨fun _ h => ?_, fun _ => ?_⟩
          · cases key <;> cases h
          · split_ifs
            · exact ⟨_, rfl⟩
            · exact ⟨_, rfl⟩
            all_goals
              cases json.fromStr back.trim <;> exact ⟨_, rfl⟩
      · rw [if_pos (by rwa [← not_and_or])]
        refine ⟨fun _ h => hquotes ?_, fun _ => ⟨none, rfl⟩⟩
        rw [h]
        exact ⟨List.prefix_rfl, List.suffix_rfl⟩

/-! ### Up to the rescue -/

/-- The text with its keys quoted. -/
def quotedKeys (raw : Str) : Str := quoteKeys false false raw.bytes

/-- The text with its keys quoted and its strings repaired. -/
def escapedText (raw : Str) : Str := escapeControls false (quotedKeys raw).bytes

/-- The strict parser accepts the text neither as it stands nor after one of the repairs. -/
structure Unparsable (json : SerdeJson N) (raw : Str) : Prop where
  strict : json.fromStr raw = none
  quoted : json.fromStr (quotedKeys raw) = none
  escaped : json.fromStr (escapedText raw) = none
  rewritten : ∀ text, unEscapeStructuralQuotes (escapedText raw) = .ok (some text) →
    json.fromStr text = none

/-- Attempts on equal texts have equal outcomes, so that the checks for a change do not matter. -/
lemma fromStr_if_ne (text previous : Str) (h : json.fromStr previous = none) :
    (if text ≠ previous then json.fromStr text else none) = json.fromStr text := by
  split_ifs with hne
  · rfl
  · rw [not_ne_iff.mp hne, h]

lemma parseArguments_returns_iff (raw : Str) :
    (∃ v, Gemma4ToolFormat.parseArguments json raw = .ok v) ↔
      ¬ (Unparsable json raw ∧ keyPart (quotedKeys raw) = some ['"']) := by
  rw [Gemma4ToolFormat.parseArguments]
  cases hstrict : json.fromStr raw with
  | some v =>
    refine ⟨fun _ h => ?_, fun _ => ⟨_, rfl⟩⟩
    rw [h.1.strict] at hstrict
    cases hstrict
  | none =>
    have hkeys : quoteBareKeys raw = .ok (quotedKeys raw) := quoteBareKeys_eq raw
    have hcontrols : escapeStringControls (quotedKeys raw) = .ok (escapedText raw) :=
      escapeStringControls_eq _
    rw [lenientParseObject, hkeys, ok_bind]
    cases hquoted : json.fromStr (quotedKeys raw) with
    | some v =>
      refine ⟨fun _ h => ?_, fun _ => ⟨_, rfl⟩⟩
      rw [h.1.quoted] at hquoted
      cases hquoted
    | none =>
      simp only [hcontrols, ok_bind, fromStr_if_ne _ _ hquoted]
      cases hescaped : json.fromStr (escapedText raw) with
      | some v =>
        refine ⟨fun _ h => ?_, fun _ => ⟨_, rfl⟩⟩
        rw [h.1.escaped] at hescaped
        cases hescaped
      | none =>
        obtain ⟨rewritten, hrewritten, -⟩ := unEscapeStructuralQuotes_stripped (escapedText raw)
        simp only [hrewritten, ok_bind, fromStr_if_ne _ _ hescaped]
        cases hparsed : rewritten.bind json.fromStr with
        | some v =>
          obtain ⟨text, rfl, htext⟩ := Option.bind_eq_some_iff.mp hparsed
          refine ⟨fun _ h => ?_, fun _ => ⟨_, rfl⟩⟩
          rw [h.1.rewritten text hrewritten] at htext
          cases htext
        | none =>
          have hunparsable : Unparsable json raw := by
            refine ⟨hstrict, hquoted, hescaped, fun text htext => ?_⟩
            rw [hrewritten] at htext
            cases htext
            exact hparsed
          simp only [hunparsable, true_and]
          exact bareValueRescue_returns_iff (quotedKeys raw)

/-- The arguments in a body: its text from the first brace on. -/
def argumentsOf (body : Str) : Option Str :=
  (splitFirst ['{'] (Gemma4ToolFormat.stripped body)).map fun p => '{' :: p.2

lemma parseBody_returns_iff {isAlphanumeric : Char → Bool} (body : Str) :
    (∃ p, Gemma4ToolFormat.parseBody json isAlphanumeric body = .ok p) ↔
      ∀ raw, argumentsOf body = some raw →
        ¬ (Unparsable json raw ∧ keyPart (quotedKeys raw) = some ['"']) := by
  rw [Gemma4ToolFormat.parseBody, argumentsOf]
  by_cases hempty : Gemma4ToolFormat.stripped body = []
  · rw [if_pos hempty, hempty]
    exact ⟨fun _ _ => nofun, fun _ => ⟨none, rfl⟩⟩
  · rw [if_neg hempty, Gemma4ToolFormat.parseCall, find_eq_splitFirst]
    cases hsplit : splitFirst ['{'] (Gemma4ToolFormat.stripped body) with
    | none =>
      refine ⟨fun _ _ => nofun, fun _ => ?_⟩
      by_cases hbare : isBareName isAlphanumeric (Gemma4ToolFormat.stripped body) = true
      · exact ⟨_, by
          rw [Option.map_none]
          simp only [hbare, if_true, ok_bind, hempty, if_false]
          rfl⟩
      · exact ⟨none, by rw [Option.map_none]; simp only [hbare]; rfl⟩
    | some parts =>
      obtain ⟨front, back⟩ := parts
      have hstripped := eq_of_splitFirst hsplit
      have hname : slice (Gemma4ToolFormat.stripped body) 0 front.len = .ok front := by
        rw [hstripped, List.append_assoc]
        simpa using slice_append [] front (['{'] ++ back)
      have hargs : sliceFrom (Gemma4ToolFormat.stripped body) front.len = .ok ('{' :: back) := by
        rw [hstripped, List.append_assoc]
        exact sliceFrom_append front _
      simp only [Option.map_some, hname, hargs, ok_bind, pure_eq_ok, Option.some.injEq,
        forall_eq', ← parseArguments_returns_iff]
      cases Gemma4ToolFormat.parseArguments json ('{' :: back) with
      | error e => constructor <;> rintro ⟨_, h⟩ <;> cases h
      | ok v =>
        refine ⟨fun _ => ⟨v, rfl⟩, fun _ => ?_⟩
        cases v with
        | none => exact ⟨none, rfl⟩
        | some v =>
          simp only [Option.map_some, ok_bind]
          split_ifs <;> exact ⟨_, rfl⟩

/-! ### The shape of the arguments -/

/-- White space, a quote, white space, a colon, anything, a brace and white space. -/
structure LoneShape (s ws ws' value behind : Str) : Prop where
  blank₁ : Blank ws
  blank₂ : Blank ws'
  blank₃ : Blank behind
  eq : s = ws ++ '"' :: (ws' ++ ':' :: (value ++ '}' :: behind))

lemma LoneShape.keyPart {s ws ws' value behind : Str} (h : LoneShape s ws ws' value behind) :
    keyPart ('{' :: s) = some ['"'] := by
  obtain ⟨hws, hws', hbehind, rfl⟩ := h
  have houter : trim ('{' :: (ws ++ '"' :: (ws' ++ ':' :: (value ++ '}' :: behind)))) =
      ['{'] ++ ((ws ++ '"' :: (ws' ++ ':' :: value)) ++ ['}']) := by
    have hlast :
        (['{'] ++ ((ws ++ '"' :: (ws' ++ ':' :: value)) ++ ['}'])).getLast? = some '}' := by
      rw [← List.append_assoc, List.getLast?_append]
      rfl
    have := trim_append (s := ['{'] ++ ((ws ++ '"' :: (ws' ++ ':' :: value)) ++ ['}']))
      blank_nil hbehind (by rintro c ⟨⟩; rfl) (by rw [hlast]; rintro c ⟨⟩; rfl)
    simpa using this
  obtain ⟨value', w, hw, rfl, hlast⟩ := exists_blank_suffix (c := ':') rfl value
  have hinner : trim (ws ++ '"' :: (ws' ++ ':' :: (value' ++ w))) =
      '"' :: ws' ++ ':' :: value' := by
    have := trim_append (s := '"' :: ws' ++ ':' :: value') hws hw (by rintro c ⟨⟩; rfl)
      (by rw [List.getLast?_append]; simpa using hlast)
    simpa using this
  have hcolon : ':' ∉ '"' :: ws' := by
    rw [List.mem_cons, not_or]
    exact ⟨by decide, fun hmem => absurd (hws' _ hmem) (by decide)⟩
  rw [ModelApi.Gemma.keyPart, houter, stripPrefix_eq_some.mpr rfl, Option.bind_some,
    stripSuffix_eq_some.mpr rfl, Option.bind_some, hinner,
    splitFirst_singleton.mpr ⟨rfl, hcolon⟩, Option.map_some]
  exact congrArg some (trim_of_blank_append_singleton blank_nil hws' rfl)

lemma exists_loneShape {s : Str} (h : keyPart ('{' :: s) = some ['"']) :
    ∃ ws ws' value behind, LoneShape s ws ws' value behind := by
  obtain ⟨stripped, hstripped, h⟩ := Option.bind_eq_some_iff.mp h
  obtain ⟨outer, houter, hsuffix⟩ := Option.bind_eq_some_iff.mp hstripped
  obtain ⟨⟨front, back⟩, hsplit, hkey⟩ := Option.map_eq_some_iff.mp h
  obtain ⟨w₀, w₁, hw₀, hw₁, heq⟩ := exists_trim ('{' :: s)
  obtain ⟨w₂, w₃, hw₂, hw₃, hinner⟩ := exists_trim stripped
  obtain ⟨w₄, w₅, hw₄, hw₅, hfront⟩ := exists_trim front
  rw [stripPrefix_eq_some.mp houter, stripSuffix_eq_some.mp hsuffix, hinner,
    eq_of_splitFirst hsplit, hfront] at heq
  simp only at hkey
  rw [hkey] at heq
  cases w₀ with
  | cons c w₀ =>
    obtain ⟨rfl, -⟩ := List.cons.inj heq
    exact absurd (blank_cons.mp hw₀).1 (by decide)
  | nil =>
    refine ⟨w₂ ++ w₄, w₅, back ++ w₃, w₁, blank_append.mpr ⟨hw₂, hw₄⟩, hw₅, hw₁, ?_⟩
    simpa using heq

/-! ### The shape survives the quoting of keys -/

namespace Emits

variable {consumed piece : Str}

lemma eq_of_blank (h : Emits consumed piece) (hne : consumed ≠ [])
    (hblank : Blank consumed ∨ Blank piece) : piece = consumed := by
  have hident : ∀ ident : Str, (∀ c ∈ ident, isIdentByte c = true) → ident ≠ [] →
      ¬ Blank ident := by
    intro ident hident hne hblank
    obtain ⟨c, ident, rfl⟩ := List.exists_cons_of_ne_nil hne
    have := isWhitespace_of_isIdentByte (hident c List.mem_cons_self)
    rw [hblank c List.mem_cons_self] at this
    cases this
  have hnot : ∀ {s : Str} (c : Char), c ∈ s → isWhitespace c = false → ¬ Blank s := by
    intro s c hc hws hblank
    rw [hblank c hc] at hws
    cases hws
  cases h with
  | byte | escape | bare => rfl
  | key h =>
    rcases hblank with hblank | hblank
    · exact absurd hblank (hident _ h hne)
    · exact absurd hblank (hnot '"' (by simp) rfl)
  | keyEq h hws =>
    rcases hblank with hblank | hblank
    · exact absurd hblank (hnot '=' (by simp) rfl)
    · exact absurd hblank (hnot '"' (by simp) rfl)

lemma eq_of_close (h : Emits consumed piece) (hmem : '}' ∈ consumed ∨ '}' ∈ piece) :
    piece = consumed ∧ (consumed = ['}'] ∨ consumed = ['\\', '}']) := by
  have hident : ∀ ident : Str, (∀ c ∈ ident, isIdentByte c = true) → '}' ∉ ident :=
    fun ident hident hmem => absurd (hident _ hmem) (by decide)
  have hspace : ∀ ws : Str, (∀ c ∈ ws, isAsciiWhitespace c = true) → '}' ∉ ws :=
    fun ws hws hmem => absurd (hws _ hmem) (by decide)
  cases h with
  | byte c =>
    rw [or_self, List.mem_singleton] at hmem
    exact ⟨rfl, .inl (by rw [hmem])⟩
  | escape c =>
    rw [or_self, List.mem_cons, List.mem_singleton] at hmem
    rcases hmem with hmem | hmem
    · cases hmem
    · exact ⟨rfl, .inr (by rw [hmem])⟩
  | bare h => exact absurd (or_self_iff.mp hmem) (hident _ h)
  | key h =>
    have := hident _ h
    simp [this] at hmem
  | keyEq h hws =>
    have h₁ := hident _ h
    have h₂ := hspace _ hws
    simp [h₁, h₂] at hmem

end Emits

/-- White space is kept. -/
lemma quoteKeys_blank (inString prev : Bool) {s : Str}
    (h : Blank s ∨ Blank (quoteKeys inString prev s)) : quoteKeys inString prev s = s := by
  cases s with
  | nil => exact quoteKeys_nil inString prev
  | cons b s =>
    obtain ⟨consumed, rest, piece, inString', prev', hs, hne, hemits, hquote⟩ :=
      quoteKeys_turn inString prev b s
    rw [hquote, hs, blank_append, blank_append] at h
    have hlen : rest.length < (b :: s).length := by
      have := List.length_pos_iff.mpr hne
      rw [hs, List.length_append]
      omega
    rw [hquote, hs, hemits.eq_of_blank hne (h.imp And.left And.left),
      quoteKeys_blank inString' prev' (h.imp And.right And.right)]
termination_by s.length

/-- The text in front of a brace ends in the first part, or the brace is in it. -/
lemma split_close {front back value behind : Str} (h : front ++ back = value ++ '}' :: behind) :
    (∃ value', value = front ++ value' ∧ back = value' ++ '}' :: behind) ∨
      ∃ last, front = value ++ '}' :: last ∧ behind = last ++ back := by
  rcases List.append_eq_append_iff.mp h with h | ⟨last, rfl, hlast⟩
  · exact .inl h
  · cases last with
    | nil => exact .inl ⟨[], by simp, by simpa using hlast.symm⟩
    | cons c last =>
      obtain ⟨rfl, rfl⟩ := List.cons.inj hlast
      exact .inr ⟨last, rfl, rfl⟩

/-- A closing brace with white space behind it is kept. -/
lemma exists_quoteKeys_close (inString prev : Bool) (value : Str) {behind : Str}
    (h : Blank behind) :
    ∃ value', quoteKeys inString prev (value ++ '}' :: behind) = value' ++ '}' :: behind := by
  obtain ⟨b, s, hbs⟩ : ∃ b s, value ++ '}' :: behind = b :: s :=
    List.exists_cons_of_ne_nil (by simp)
  obtain ⟨consumed, rest, piece, inString', prev', hs, hne, hemits, hquote⟩ :=
    quoteKeys_turn inString prev b s
  rw [hbs, hquote]
  rcases split_close (hs.symm.trans hbs.symm) with ⟨value', rfl, rfl⟩ | ⟨last, rfl, rfl⟩
  · have hlen : value'.length < (consumed ++ value').length := by
      have := List.length_pos_iff.mpr hne
      rw [List.length_append]
      omega
    obtain ⟨value'', h''⟩ := exists_quoteKeys_close inString' prev' value' h
    exact ⟨piece ++ value'', by rw [h'', List.append_assoc]⟩
  · rw [(hemits.eq_of_close (.inl (by simp))).1,
      quoteKeys_blank inString' prev' (.inl (blank_append.mp h).2)]
    exact ⟨value, by simp⟩
termination_by value.length

lemma exists_of_quoteKeys_close (inString prev : Bool) {s value behind : Str} (h : Blank behind)
    (heq : quoteKeys inString prev s = value ++ '}' :: behind) :
    ∃ value', s = value' ++ '}' :: behind := by
  cases s with
  | nil => simp at heq
  | cons b s =>
    obtain ⟨consumed, rest, piece, inString', prev', hs, hne, hemits, hquote⟩ :=
      quoteKeys_turn inString prev b s
    have hlen : rest.length < (b :: s).length := by
      have := List.length_pos_iff.mpr hne
      rw [hs, List.length_append]
      omega
    rw [hs]
    rcases split_close (hquote.symm.trans heq) with ⟨value', rfl, hrest⟩ | ⟨last, rfl, hlast⟩
    · obtain ⟨value'', h''⟩ := exists_of_quoteKeys_close inString' prev' h hrest
      exact ⟨consumed ++ value'', by rw [h'', List.append_assoc]⟩
    · rw [hlast, blank_append] at h
      have hrest := quoteKeys_blank inString' prev' (.inr h.2)
      rw [← (hemits.eq_of_close (.inr (by simp))).1, hlast, hrest]
      exact ⟨value, by simp⟩
termination_by s.length

lemma ne_of_isWhitespace {c d : Char} (hc : isWhitespace c = true) (hd : isWhitespace d = false) :
    c ≠ d := by
  rintro rfl
  rw [hc] at hd
  cases hd

/-- The first byte written outside of a string. -/
lemma quoteKeys_head (prev : Bool) (b : Char) (s : Str) :
    (b = '"' ∧ quoteKeys false prev (b :: s) = '"' :: quoteKeys true false s) ∨
      (isIdentByte b = true ∧ ((∃ t, quoteKeys false prev (b :: s) = '"' :: b :: t) ∨
        ∃ t, quoteKeys false prev (b :: s) = b :: t)) ∨
      b ≠ '"' ∧ ∃ prev', quoteKeys false prev (b :: s) = b :: quoteKeys false prev' s := by
  by_cases hq : b = '"'
  · subst hq
    exact .inl ⟨rfl, quoteKeys_quote prev s⟩
  · by_cases hopen : b = '{' ∨ b = ','
    · exact .inr (.inr ⟨hq, true, quoteKeys_open hopen⟩)
    · by_cases hws : isAsciiWhitespace b = true
      · exact .inr (.inr ⟨hq, prev, quoteKeys_space hws⟩)
      · by_cases hident : prev = true ∧ isIdentStart b = true
        · obtain ⟨rfl, hstart⟩ := hident
          refine .inr (.inl ⟨isIdentByte_of_isIdentStart hstart, ?_⟩)
          rw [quoteKeys_ident hstart]
          simp only
          split_ifs
          · exact .inl ⟨_, rfl⟩
          · exact .inl ⟨_, rfl⟩
          · exact .inr ⟨_, rfl⟩
        · exact .inr (.inr ⟨hq, false, quoteKeys_other hq hopen hws hident⟩)

/-- Up to a first quote, white space is kept. -/
lemma quoteKeys_blank_quote (prev : Bool) {ws s : Str} (h : Blank ws) :
    quoteKeys false prev (ws ++ '"' :: s) = ws ++ '"' :: quoteKeys true false s := by
  induction ws generalizing prev with
  | nil => exact quoteKeys_quote prev s
  | cons c ws ih =>
    obtain ⟨hc, hws⟩ := blank_cons.mp h
    rcases quoteKeys_head prev c (ws ++ '"' :: s) with ⟨rfl, -⟩ | ⟨hident, -⟩ | ⟨-, prev', heq⟩
    · cases hc
    · rw [isWhitespace_of_isIdentByte hident] at hc
      cases hc
    · rw [List.cons_append, heq, ih prev' hws, List.cons_append]

lemma quoteKeys_blank_colon (prev : Bool) {ws s : Str} (h : Blank ws) :
    quoteKeys true prev (ws ++ ':' :: s) = ws ++ ':' :: quoteKeys true prev s := by
  induction ws with
  | nil => exact quoteKeys_inString (.inl (by decide))
  | cons c ws ih =>
    obtain ⟨hc, hws⟩ := blank_cons.mp h
    have hq : c ≠ '"' := ne_of_isWhitespace hc rfl
    rw [List.cons_append, quoteKeys_inString (.inl (ne_of_isWhitespace hc rfl)),
      decide_eq_true hq, ih hws, List.cons_append]

/-- White space and a quote, not followed by an identifier, come from the text itself. -/
lemma exists_of_quoteKeys_blank_quote {prev : Bool} {s ws x : Str} (h : Blank ws)
    (hx : ∀ c ∈ x.head?, isIdentByte c = false)
    (heq : quoteKeys false prev s = ws ++ '"' :: x) :
    ∃ s', s = ws ++ '"' :: s' ∧ x = quoteKeys true false s' := by
  cases s with
  | nil => simp at heq
  | cons b s =>
    rcases quoteKeys_head prev b s with ⟨rfl, hquote⟩ | ⟨hident, hquote⟩ | ⟨hq, prev', hquote⟩
    · rw [hquote] at heq
      cases ws with
      | nil => exact ⟨s, rfl, (List.cons.inj heq).2.symm⟩
      | cons c ws =>
        obtain ⟨rfl, -⟩ := List.cons.inj heq
        cases (blank_cons.mp h).1
    · exfalso
      rcases hquote with ⟨t, hquote⟩ | ⟨t, hquote⟩ <;> rw [hquote] at heq
      · cases ws with
        | nil =>
          obtain ⟨-, rfl⟩ := List.cons.inj heq
          rw [hx b rfl] at hident
          cases hident
        | cons c ws =>
          obtain ⟨rfl, -⟩ := List.cons.inj heq
          cases (blank_cons.mp h).1
      · cases ws with
        | nil =>
          obtain ⟨rfl, -⟩ := List.cons.inj heq
          cases hident
        | cons c ws =>
          obtain ⟨rfl, -⟩ := List.cons.inj heq
          have hb := (blank_cons.mp h).1
          rw [isWhitespace_of_isIdentByte hident] at hb
          cases hb
    · rw [hquote] at heq
      cases ws with
      | nil => exact absurd (List.cons.inj heq).1 hq
      | cons c ws =>
        rw [List.cons_append] at heq
        obtain ⟨rfl, htail⟩ := List.cons.inj heq
        obtain ⟨s', hs, hs'⟩ := exists_of_quoteKeys_blank_quote (blank_cons.mp h).2 hx htail
        exact ⟨s', by rw [hs, List.cons_append], hs'⟩
termination_by s.length

lemma exists_of_quoteKeys_blank_colon {prev : Bool} {s ws x : Str} (h : Blank ws)
    (heq : quoteKeys true prev s = ws ++ ':' :: x) :
    ∃ s', s = ws ++ ':' :: s' ∧ x = quoteKeys true prev s' := by
  induction ws generalizing s with
  | nil =>
    cases s with
    | nil => simp at heq
    | cons b s =>
      by_cases hb : b ≠ '\\' ∨ s = []
      · rw [quoteKeys_inString hb] at heq
        obtain ⟨rfl, htail⟩ := List.cons.inj heq
        exact ⟨s, rfl, htail.symm⟩
      · obtain ⟨hb, hs⟩ := not_or.mp hb
        obtain rfl := not_ne_iff.mp hb
        obtain ⟨c, s, rfl⟩ := List.exists_cons_of_ne_nil hs
        rw [quoteKeys_escape] at heq
        cases (List.cons.inj heq).1
  | cons c ws ih =>
    obtain ⟨hc, hws⟩ := blank_cons.mp h
    cases s with
    | nil => simp at heq
    | cons b s =>
      by_cases hb : b ≠ '\\' ∨ s = []
      · rw [quoteKeys_inString hb, List.cons_append] at heq
        obtain ⟨rfl, htail⟩ := List.cons.inj heq
        rw [decide_eq_true (ne_of_isWhitespace hc rfl)] at htail
        obtain ⟨s', hs, hx⟩ := ih hws htail
        exact ⟨s', by rw [hs, List.cons_append], hx⟩
      · obtain ⟨hb, hs⟩ := not_or.mp hb
        obtain rfl := not_ne_iff.mp hb
        obtain ⟨d, s, rfl⟩ := List.exists_cons_of_ne_nil hs
        rw [quoteKeys_escape] at heq
        obtain ⟨rfl, -⟩ := List.cons.inj heq
        cases hc

lemma LoneShape.quoteKeys {s ws ws' value behind : Str} (h : LoneShape s ws ws' value behind)
    (prev : Bool) :
    ∃ value', LoneShape (quoteKeys false prev s) ws ws' value' behind := by
  obtain ⟨hws, hws', hbehind, rfl⟩ := h
  obtain ⟨value', hvalue⟩ := exists_quoteKeys_close true false value hbehind
  refine ⟨value', hws, hws', hbehind, ?_⟩
  rw [quoteKeys_blank_quote prev hws, quoteKeys_blank_colon false hws', hvalue]

lemma LoneShape.of_quoteKeys {s ws ws' value behind : Str} {prev : Bool}
    (h : LoneShape (Gemma.quoteKeys false prev s) ws ws' value behind) :
    ∃ value', LoneShape s ws ws' value' behind := by
  obtain ⟨hws, hws', hbehind, heq⟩ := h
  have hhead : ∀ c ∈ (ws' ++ ':' :: (value ++ '}' :: behind)).head?, isIdentByte c = false := by
    intro c hc
    by_contra hident
    rw [Bool.not_eq_false] at hident
    have hwhite := isWhitespace_of_isIdentByte hident
    cases ws' with
    | nil =>
      cases hc
      cases hident
    | cons d ws' =>
      cases hc
      rw [(blank_cons.mp hws').1] at hwhite
      cases hwhite
  obtain ⟨s₁, rfl, h₁⟩ := exists_of_quoteKeys_blank_quote hws hhead heq
  obtain ⟨s₂, rfl, h₂⟩ := exists_of_quoteKeys_blank_colon hws' h₁.symm
  obtain ⟨value', rfl⟩ := exists_of_quoteKeys_close true false hbehind h₂.symm
  exact ⟨value', hws, hws', hbehind, rfl⟩

/-! ### From bytes to characters -/

/-- The bytes of a character that is not ASCII do not start with white space. -/
lemma not_isWhitespace_lead {lead : Char} (h : 0xC0 ≤ lead.toNat ∧ lead.toNat < 0x100) :
    isWhitespace lead = false := by
  by_contra hws
  simp only [Bool.not_eq_false, isWhitespace, Bool.or_eq_true, Bool.and_eq_true,
    decide_eq_true_eq, beq_iff_eq] at hws
  omega

lemma exists_of_bytes_blank {s ws l : Str} {b : Char} (hws : Blank ws) (hb : isAscii b)
    (h : s.bytes = ws ++ b :: l) :
    ∃ t : Str, s = ws ++ b :: t ∧ t.bytes = l ∧ ∀ c ∈ ws, isAscii c := by
  induction ws generalizing s with
  | nil =>
    obtain ⟨t, hs, ht⟩ := exists_of_bytes_eq_cons hb h
    exact ⟨t, hs, ht, nofun⟩
  | cons c ws ih =>
    obtain ⟨hc, hws⟩ := blank_cons.mp hws
    have hascii : isAscii c := by
      cases s with
      | nil => cases h
      | cons d s =>
        by_cases hd : isAscii d
        · rw [bytes_cons, encodeChar_of_isAscii hd] at h
          exact (List.cons.inj h).1 ▸ hd
        · obtain ⟨lead, conts, henc, hlead, -⟩ := encodeChar_of_not_isAscii hd
          rw [bytes_cons, henc] at h
          obtain ⟨rfl, -⟩ := List.cons.inj h
          rw [not_isWhitespace_lead hlead] at hc
          cases hc
    rw [List.cons_append] at h
    obtain ⟨s', rfl, hs'⟩ := exists_of_bytes_eq_cons hascii h
    obtain ⟨t, rfl, ht, hall⟩ := ih hws hs'
    exact ⟨t, rfl, ht, List.forall_mem_cons.mpr ⟨hascii, hall⟩⟩

/-- A text that ends, in its bytes, in a brace and white space ends in the brace, unless it ends in
white space itself. -/
lemma exists_of_bytes_close {s value behind : Str} (hbehind : Blank behind)
    (hlast : ∀ c, s.getLast? = some c → isWhitespace c = false)
    (h : s.bytes = value ++ '}' :: behind) : ∃ t, s = t ++ ['}'] := by
  cases s using List.reverseRecOn with
  | nil => simp at h
  | append_singleton t c =>
    have hc : isWhitespace c = false := hlast c (by simp)
    by_cases hascii : isAscii c
    · have hbytes : bytes (t ++ [c]) = bytes t ++ [c] := by
        rw [bytes_append, bytes_cons, encodeChar_of_isAscii hascii]
        rfl
      rw [hbytes] at h
      cases behind using List.reverseRecOn with
      | nil =>
        obtain ⟨-, hc'⟩ := List.append_inj' h rfl
        exact ⟨t, by rw [hc']⟩
      | append_singleton behind d =>
        have h' : bytes t ++ [c] = (value ++ '}' :: behind) ++ [d] := by simpa using h
        obtain ⟨-, hd⟩ := List.append_inj' h' rfl
        obtain rfl : c = d := (List.cons.inj hd).1
        rw [hbehind c (by simp)] at hc
        cases hc
    · -- the brace would be one of the bytes of `c`, or the first of them white space
      exfalso
      obtain ⟨lead, conts, henc, hlead, hconts⟩ := encodeChar_of_not_isAscii hascii
      have hbytes : bytes (t ++ [c]) = bytes t ++ lead :: conts := by
        rw [bytes_append, bytes_cons, henc, bytes_nil, List.append_nil]
      rw [hbytes] at h
      rcases List.append_eq_append_iff.mp h with ⟨mid, -, hmid⟩ | ⟨mid, -, hmid⟩
      · have hmem : '}' ∈ lead :: conts := by
          rw [hmid]
          simp
        have hge : '}'.toNat < 0x80 := by decide
        rcases List.mem_cons.mp hmem with rfl | hmem
        · omega
        · have := hconts _ hmem
          omega
      · cases mid with
        | nil =>
          obtain ⟨rfl, -⟩ := List.cons.inj hmid
          exact absurd hlead.1 (by decide)
        | cons d mid =>
          obtain ⟨rfl, rfl⟩ := List.cons.inj hmid
          have := hbehind lead (by simp)
          rw [not_isWhitespace_lead hlead] at this
          cases this

/-- The arguments `{":…}`, with white space around the quote. -/
def LoneQuoteKey (raw : Str) : Prop :=
  ∃ ws ws' value : Str, (∀ c ∈ ws ++ ws', isAscii c ∧ isWhitespace c = true) ∧
    raw = '{' :: (ws ++ '"' :: (ws' ++ ':' :: (value ++ ['}'])))

lemma keyPart_quotedKeys_iff {r : Str}
    (hlast : ∀ c, ('{' :: r).getLast? = some c → isWhitespace c = false) :
    keyPart (quotedKeys ('{' :: r)) = some ['"'] ↔ LoneQuoteKey ('{' :: r) := by
  have hquoted : quotedKeys ('{' :: r) = '{' :: quoteKeys false true (bytes r) := by
    rw [quotedKeys, bytes_cons, encodeChar_of_isAscii (by decide)]
    exact quoteKeys_open (.inl rfl)
  rw [hquoted]
  constructor
  · intro h
    obtain ⟨ws, ws', value, behind, hshape⟩ := exists_loneShape h
    obtain ⟨value, hws, hws', hbehind, heq⟩ := hshape.of_quoteKeys
    obtain ⟨s₁, rfl, h₁, hascii⟩ := exists_of_bytes_blank hws (by decide) heq
    obtain ⟨s₂, rfl, h₂, hascii'⟩ := exists_of_bytes_blank hws' (by decide) h₁
    have hlast₂ : ∀ c, s₂.getLast? = some c → isWhitespace c = false := by
      intro c hc
      apply hlast
      simp [List.getLast?_append, List.getLast?_cons, hc]
    obtain ⟨value', rfl⟩ := exists_of_bytes_close hbehind hlast₂ h₂
    refine ⟨ws, ws', value', fun c hc => ?_, rfl⟩
    rcases List.mem_append.mp hc with hc | hc
    · exact ⟨hascii c hc, hws c hc⟩
    · exact ⟨hascii' c hc, hws' c hc⟩
  · rintro ⟨ws, ws', value, hall, heq⟩
    obtain ⟨hws, hws'⟩ := List.forall_mem_append.mp hall
    obtain rfl := (List.cons.inj heq).2
    have hshape : LoneShape (bytes (ws ++ '"' :: (ws' ++ ':' :: (value ++ ['}'])))) ws ws'
        (bytes value) [] := by
      refine ⟨fun c hc => (hws c hc).2, fun c hc => (hws' c hc).2, blank_nil, ?_⟩
      have hq : encodeChar '"' = ['"'] := encodeChar_of_isAscii (by decide)
      have hcolon : encodeChar ':' = [':'] := encodeChar_of_isAscii (by decide)
      have hbrace : encodeChar '}' = ['}'] := encodeChar_of_isAscii (by decide)
      simp only [bytes_append, bytes_cons, bytes_nil, hq, hcolon, hbrace,
        bytes_of_isAscii fun c hc => (hws c hc).1, bytes_of_isAscii fun c hc => (hws' c hc).1,
        List.cons_append, List.nil_append, List.append_nil]
    obtain ⟨value', hshape'⟩ := hshape.quoteKeys true
    exact hshape'.keyPart

/-- A body whose arguments have a single quote for a key and that nothing else can read. -/
def Stuck (json : SerdeJson N) (body : Str) : Prop :=
  ∃ raw, argumentsOf body = some raw ∧ LoneQuoteKey raw ∧ Unparsable json raw

/-- Arguments do not end in white space. -/
lemma getLast?_argumentsOf {body raw : Str} (h : argumentsOf body = some raw) {c : Char}
    (hc : raw.getLast? = some c) : isWhitespace c = false := by
  obtain ⟨⟨front, back⟩, hsplit, rfl⟩ := Option.map_eq_some_iff.mp h
  have hstripped := eq_of_splitFirst hsplit
  apply getLast?_trim (s := (stripPrefix (Gemma4ToolFormat.normalize body).trim
    "call:".toList).getD (Gemma4ToolFormat.normalize body).trim)
  change (Gemma4ToolFormat.stripped body).getLast? = some c
  rw [hstripped, List.append_assoc, List.getLast?_append]
  simpa using hc

/-- The parser of the native format returns unless the body is stuck. -/
lemma parseBody_returns_iff_not_stuck {isAlphanumeric : Char → Bool} (body : Str) :
    (∃ p, Gemma4ToolFormat.parseBody json isAlphanumeric body = .ok p) ↔ ¬ Stuck json body := by
  rw [parseBody_returns_iff, Stuck]
  have hkey : ∀ raw, argumentsOf body = some raw →
      (keyPart (quotedKeys raw) = some ['"'] ↔ LoneQuoteKey raw) := by
    intro raw hraw
    obtain ⟨parts, -, rfl⟩ := Option.map_eq_some_iff.mp hraw
    exact keyPart_quotedKeys_iff fun c hc => getLast?_argumentsOf hraw hc
  constructor
  · rintro h ⟨raw, hraw, hlone, hunparsable⟩
    exact h raw hraw ⟨hunparsable, (hkey raw hraw).mpr hlone⟩
  · rintro h raw hraw ⟨hunparsable, hlone⟩
    exact h ⟨raw, hraw, (hkey raw hraw).mp hlone, hunparsable⟩

end ModelApi.Gemma
