import ModelApi.Gemma.DataQuotes
import ModelApi.Gemma.BareValue

/-!
# Over-escaped arguments

Arguments whose quotes are all escaped, from the one on that closes the first value: the quotes that
belong to the object are unescaped, and those in values stay as they are.
-/

namespace ModelApi.Gemma

open Lib Lib.Str

variable {N : Type} {number : Str → Option N} {json : SerdeJson N}

/-! ### The text -/

/-- JSON strings in which control characters may stand. -/
def Style.raw : Style := { Style.strict with rawControls := true }

/-- A key, a string and a text of this string. -/
structure StringMember (style : Style) where
  key : Str
  value : Str
  text : Str
  isKey : IsKey key
  ascii : ∀ c ∈ value, isAscii c
  apart : QuotesApart value
  escapes : Chars style text value

/-- What stands behind the text of a value, with `q` for all quotes: the end of the object or the
next member. -/
def restText {style : Style} (q : Str) : List (StringMember style) → Str
  | []      => q ++ ['}']
  | m :: ms => q ++ ',' :: (q ++ (m.key ++ (q ++ ':' :: (q ++ (m.text ++ restText q ms)))))

/-- An object, with `q` for the quotes behind the one that opens the first value. -/
def membersText {style : Style} (q : Str) (m : StringMember style)
    (ms : List (StringMember style)) : Str :=
  '{' :: '"' :: (m.key ++ '"' :: ':' :: '"' :: (m.text ++ restText q ms))

/-- The text with all quotes behind the one that opens the first value escaped. -/
def overEscaped {style : Style} (m : StringMember style) (ms : List (StringMember style)) : Str :=
  membersText ['\\', '"'] m ms

/-! ### Unescaping the text -/

lemma blind_restText (ms : List (StringMember .strict)) :
    ∃ c r, (c = '}' ∨ c = ',') ∧ blind (restText ['\\', '"'] ms) = '"' :: c :: r := by
  cases ms with
  | nil => exact ⟨'}', [], .inl rfl, rfl⟩
  | cons m ms =>
    have hblind := (OptQuote.escaped.blind_append (',' :: (['\\', '"'] ++ (m.key ++ (['\\', '"'] ++
      ':' :: (['\\', '"'] ++ (m.text ++ restText ['\\', '"'] ms)))))))
    rw [blind_mark (by simp)] at hblind
    exact ⟨',', _, .inr rfl, hblind⟩

/-- The text of a value stays as it is. -/
lemma StringMember.stripped (m : StringMember .strict) (ms : List (StringMember .strict))
    {z t : Str} (h : Stripped (z ++ ':' :: '"' :: blind m.text) (restText ['\\', '"'] ms) t) :
    Stripped (z ++ [':', '"']) (m.text ++ restText ['\\', '"'] ms) (m.text ++ t) := by
  obtain ⟨c, r, hc, hr⟩ := blind_restText ms
  have hhead : (restText ['\\', '"'] ms).head? ≠ some '"' := by
    cases ms <;> simp [restText]
  refine Stripped.append ?_ hhead (by simpa using h)
  intro a b htext
  rw [List.append_assoc]
  exact m.escapes.not_structural htext m.apart hhead hc hr

/-- The quotes of the object are unescaped, and those in values stay. -/
lemma stripped_restText (ms : List (StringMember .strict)) (front : Str) :
    Stripped front (restText ['\\', '"'] ms) (restText ['"'] ms) := by
  induction ms generalizing front with
  | nil => exact .structural (.last blank_nil) (.char (by simp) .nil)
  | cons m ms ih =>
    have hvalue := m.stripped ms (z := front ++ '"' :: ',' :: '"' :: (m.key ++ ['"'])) (ih _)
    change Stripped front ('\\' :: '"' :: ',' :: '\\' :: '"' :: (m.key ++ '\\' :: '"' :: ':' ::
      '\\' :: '"' :: (m.text ++ restText ['\\', '"'] ms)))
      ('"' :: ',' :: '"' :: (m.key ++ '"' :: ':' :: '"' :: (m.text ++ restText ['"'] ms)))
    generalize m.text ++ restText ['\\', '"'] ms = u at hvalue ⊢
    generalize m.text ++ restText ['"'] ms = u' at hvalue ⊢
    have hcolon : blind (':' :: '\\' :: '"' :: u) = ':' :: '"' :: blind u := by
      rw [blind_mark (by simp), blind_escaped]
    have hkey : blind (m.key ++ '\\' :: '"' :: ':' :: '\\' :: '"' :: u) =
        m.key ++ '"' :: ':' :: '"' :: blind u := by
      rw [m.isKey.blind_append, blind_escaped, hcolon]
    have hcomma : blind (',' :: '\\' :: '"' :: (m.key ++ '\\' :: '"' :: ':' :: '\\' :: '"' :: u)) =
        ',' :: '"' :: (m.key ++ '"' :: ':' :: '"' :: blind u) := by
      rw [blind_mark (by simp), blind_escaped, hkey]
    have hanchor : ∀ r, Anchored (front ++ ['"']) ',' r :=
      fun r => .inr ⟨rfl, front, [], blank_nil, rfl⟩
    have hopensValue : Structural (front ++ '"' :: ',' :: '"' :: (m.key ++ ['"', ':']))
        (blind u) := by
      rw [List.append_cons]
      exact .opensValue (.inr rfl) blank_nil m.isKey blank_nil blank_nil
    have hclosesKey : Structural (front ++ '"' :: ',' :: '"' :: m.key)
        (blind (':' :: '\\' :: '"' :: u)) := by
      rw [List.append_cons, hcolon]
      exact .closesKey (hanchor _) blank_nil m.isKey blank_nil
    have hopensKey : Structural (front ++ ['"', ','])
        (blind (m.key ++ '\\' :: '"' :: ':' :: '\\' :: '"' :: u)) := by
      rw [List.append_cons, hkey]
      exact .opensKey (hanchor _) blank_nil m.isKey blank_nil
    have hclosesValue : Structural front
        (blind (',' :: '\\' :: '"' :: (m.key ++ '\\' :: '"' :: ':' :: '\\' :: '"' :: u))) := by
      rw [hcomma]
      exact .value blank_nil blank_nil m.isKey blank_nil
    refine .structural hclosesValue (.char (by simp) (.structural (by simpa using hopensKey)
      (.append_plain (m.isKey.not_mem (by simp)) (.structural (by simpa using hclosesKey)
        (.char (by simp) (.structural (by simpa using hopensValue) (by simpa using hvalue)))))))

/-! ### The scanners in an open string -/

lemma IsKey.chars {style : Style} {k : Str} (hk : IsKey k) : Chars style k k := by
  apply chars_self
  intro c hc
  have hkey := hk.forall c hc
  simp only [isKeyChar, Bool.or_eq_true, beq_iff_eq] at hkey
  rcases hkey with (h | rfl) | rfl
  · exact plain_of_isIdentByte h
  · decide
  · decide

lemma IsKey.ascii {k : Str} (hk : IsKey k) : ∀ c ∈ k, isAscii c := by
  intro c hc
  have hkey := hk.forall c hc
  simp only [isKeyChar, Bool.or_eq_true, beq_iff_eq] at hkey
  rcases hkey with (h | rfl) | rfl
  · exact isAscii_of_isIdentByte h
  · decide
  · decide

lemma Chars.append {style : Style} {t s t' s' : Str} (h : Chars style t s)
    (h' : Chars style t' s') : Chars style (t ++ t') (s ++ s') := by
  induction h with
  | nil => exact h'
  | plain hquote hbackslash hc _ ih => exact .plain hquote hbackslash hc ih
  | @escape e t s c he _ ih =>
    have := Chars.escape he ih
    rwa [← List.append_assoc] at this
  | rawControl hstyle hc _ ih => exact .rawControl hstyle hc ih
  | lone hstyle hx _ ih => exact .lone hstyle hx ih

/-- The rest of the text is one open string. -/
lemma chars_restText {style : Style} (ms : List (StringMember style)) :
    ∃ s, Chars style (restText ['\\', '"'] ms) s ∧ ∀ c ∈ s, isAscii c := by
  have hquote : Chars style ['\\', '"'] ['"'] := .escape (.short rfl) .nil
  have hmark : ∀ {c : Char} {t s : Str}, c ∈ [',', ':', '}'] → Chars style t s →
      Chars style (c :: t) (c :: s) := by
    intro c t s hc h
    simp only [List.mem_cons, List.not_mem_nil, or_false] at hc
    rcases hc with rfl | rfl | rfl <;> exact .plain (by simp) (by simp) (by simp) h
  induction ms with
  | nil => exact ⟨_, hquote.append (hmark (by simp) .nil), by simp; decide⟩
  | cons m ms ih =>
    obtain ⟨s, hs, hascii⟩ := ih
    refine ⟨_, hquote.append (hmark (by simp) (hquote.append (m.isKey.chars.append (hquote.append
      (hmark (by simp) (hquote.append (m.escapes.append hs))))))), ?_⟩
    have hquote' : ∀ c ∈ ['"'], isAscii c := List.forall_mem_singleton.mpr (by decide)
    simp only [List.forall_mem_append, List.forall_mem_cons (l := _ ++ _)]
    exact ⟨hquote', by decide, hquote', m.isKey.ascii, hquote', by decide, hquote', m.ascii, hascii⟩

/-- A text whose first value is an open string. -/
structure Open (k tail : Str) : Prop where
  key : IsKey k
  tail : ∃ s, Chars .raw tail s ∧ ∀ c ∈ s, isAscii c

def openText (k tail : Str) : Str := '{' :: '"' :: (k ++ '"' :: ':' :: '"' :: tail)

lemma bytes_openText {k tail : Str} (h : Open k tail) :
    bytes (openText k tail) = openText k tail := by
  obtain ⟨hk, s, htail, hs⟩ := h
  have hquote := bytes_chars htail hs []
  rw [List.append_nil, bytes_nil, List.append_nil] at hquote
  have hkey := bytes_chars (hk.chars : Chars .strict k k) hk.ascii ('"' :: ':' :: '"' :: tail)
  rw [openText, bytes_cons_of_isAscii (by decide), bytes_cons_of_isAscii (by decide), hkey,
    bytes_cons_of_isAscii (by decide), bytes_cons_of_isAscii (by decide),
    bytes_cons_of_isAscii (by decide), hquote]

lemma quoteBareKeys_openText {k tail : Str} (h : Open k tail) :
    quoteBareKeys (openText k tail) = .ok (openText k tail) := by
  rw [quoteBareKeys_eq, bytes_openText h, openText]
  obtain ⟨hk, s, htail, -⟩ := h
  have hquote : quoteKeys true false (tail ++ []) = tail ++ quoteKeys true false [] :=
    quoteKeys_chars htail []
  rw [List.append_nil, quoteKeys_nil, List.append_nil] at hquote
  rw [quoteKeys_mark (by decide), quoteKeys_string (hk.chars : Chars .strict k k),
    quoteKeys_mark (by decide), quoteKeys_quote, hquote]

lemma escapeStringControls_openText {k tail : Str} (h : Open k tail) :
    escapeStringControls (openText k tail) = .ok (openText k (escapeControls true tail)) := by
  rw [escapeStringControls_eq, bytes_openText h]
  obtain ⟨k', -, hsame, hkey⟩ := escapeControls_chars (h.key.chars : Chars .strict k k)
  rw [hsame ⟨rfl, rfl⟩] at hkey
  have hmark : ∀ c s, c ≠ '"' → escapeControls false (c :: s) = c :: escapeControls false s := by
    intro c s hc
    rw [escapeControls, decide_eq_false hc]
  rw [openText, hmark _ _ (by simp), escapeControls_quote, Bool.not_false, hkey,
    escapeControls_quote, Bool.not_true, hmark _ _ (by simp), escapeControls_quote,
    Bool.not_false]
  rfl

lemma Chars.of_cons {style : Style} {c : Char} {t s : Str} (h : Chars style (c :: t) s)
    (hc : c ≠ '\\') : c ≠ '"' ∧ ∃ s', Chars style t s' := by
  cases h with
  | plain hquote _ _ h => exact ⟨hquote, _, h⟩
  | escape => exact absurd rfl hc
  | rawControl _ hctl h => exact ⟨ne_of_control hctl (by simp), _, h⟩
  | lone => exact absurd rfl hc

lemma Chars.of_backslash {t s : Str} (h : Chars .raw ('\\' :: t) s) :
    ∃ e t' c s', t = e ++ t' ∧ Unescapes e c ∧ Chars .raw t' s' := by
  cases h with
  | plain _ hbackslash => exact absurd rfl hbackslash
  | escape he h => exact ⟨_, _, _, _, rfl, he, h⟩
  | rawControl _ hctl => exact absurd hctl (by simp)
  | lone hstyle => cases hstyle

/-- An open string has no end. -/
lemma Chars.ne_append_quote {t s u s' r : Str} (h : Chars .strict u s') (h' : Chars .raw t s) :
    t ≠ u ++ '"' :: r := by
  induction h generalizing t s with
  | nil =>
    rintro rfl
    exact (h'.of_cons (by simp)).1 rfl
  | plain hquote hbackslash _ _ ih =>
    rintro rfl
    obtain ⟨-, s', h'⟩ := h'.of_cons hbackslash
    exact ih h' rfl
  | @escape e u s' c he _ ih =>
    rintro rfl
    rw [List.cons_append, List.append_assoc] at h'
    obtain ⟨e', t', c', s'', heq, he', ht'⟩ := h'.of_backslash
    have hread := unescape_append he (u ++ '"' :: r)
    rw [heq, unescape_append he'] at hread
    exact ih ht' (Prod.mk.inj (Option.some.inj hread)).2
  | rawControl hstyle => cases hstyle
  | lone hstyle => cases hstyle

lemma fromStr_openText {k tail : Str} (h : Open k tail) :
    fromStr number (openText k tail) = none := by
  obtain ⟨hk, s, htail, -⟩ := h
  have hkey := parseMembers_key number ((k ++ '"' :: ':' :: '"' :: tail).length + 1) 126 space_nil
    (stringLit_strict.mpr ⟨k, rfl, hk.chars⟩) ('"' :: tail)
  have hskip : skipSpace ('"' :: tail) = '"' :: tail := skipSpace_cons space_nil (by decide)
  have hstring : parseString ('"' :: tail) = none := by
    cases hparse : parseString ('"' :: tail) with
    | none => rfl
    | some p =>
      exfalso
      obtain ⟨t, heq, ht⟩ := parseString_eq_some.mp hparse
      obtain ⟨u, rfl, hu⟩ := stringLit_strict.mp ht
      rw [List.cons_append, List.append_assoc] at heq
      exact hu.ne_append_quote htail (List.cons.inj heq).2
  rw [List.nil_append, hskip] at hkey
  rw [openText, fromStr_object, hkey]
  simp [parseValue, hstring]

/-! ### Escaping the values -/

lemma StringMember.escape (m : StringMember .raw) :
    ∃ m' : StringMember .strict, m'.key = m.key ∧ m'.value = m.value ∧
      ∀ s, escapeControls true (m.text ++ s) = m'.text ++ escapeControls true s := by
  obtain ⟨text, htext, -, hrun⟩ := escapeControls_chars m.escapes
  exact ⟨⟨m.key, m.value, text, m.isKey, m.ascii, m.apart, htext⟩, rfl, rfl, hrun⟩

/-- The key and the value of a member. -/
def StringMember.entry {style : Style} (N : Type) (m : StringMember style) : Str × Value N :=
  (m.key, .string m.value)

lemma escapeControls_restText (ms : List (StringMember .raw)) :
    ∃ ms' : List (StringMember .strict),
      ms'.map (StringMember.entry N) = ms.map (StringMember.entry N) ∧
      escapeControls true (restText ['\\', '"'] ms) = restText ['\\', '"'] ms' := by
  have hquote : ∀ s, escapeControls true (['\\', '"'] ++ s) =
      ['\\', '"'] ++ escapeControls true s := by
    intro s
    simp [escapeControls, isValidEscape]
  induction ms with
  | nil => exact ⟨[], rfl, rfl⟩
  | cons m ms ih =>
    obtain ⟨ms', hentries, hms'⟩ := ih
    obtain ⟨m', hkey, hvalue, hm'⟩ := m.escape
    obtain ⟨k, -, hsame, hrun⟩ :=
      escapeControls_chars (m.isKey.chars : Chars .strict m.key m.key)
    refine ⟨m' :: ms', ?_, ?_⟩
    · simp [StringMember.entry, hentries, hkey, hvalue]
    · rw [hsame ⟨rfl, rfl⟩] at hrun
      rw [restText, restText, hquote, escapeControls_plain (by simp) (by simp) (by simp), hquote,
        hrun, hquote, escapeControls_plain (by simp) (by simp) (by simp), hquote, hm', hms', hkey]

/-! ### The text without the escapes -/

lemma renders_members (number : Str → Option N) (m : StringMember .strict)
    (ms : List (StringMember .strict)) (n : ℕ) :
    ∃ t, '"' :: (m.key ++ '"' :: ':' :: '"' :: (m.text ++ restText ['"'] ms)) = t ++ ['}'] ∧
      Renders .strict number n t (.members ((m :: ms).map (StringMember.entry N))) := by
  have hkey : ∀ m : StringMember .strict,
      KeySep .strict ('"' :: (m.key ++ ['"']) ++ [] ++ [':']) m.key :=
    fun m => .quoted (stringLit_strict.mpr ⟨m.key, rfl, m.isKey.chars⟩) space_nil
  have hvalue : ∀ m : StringMember .strict,
      Renders .strict number n ('"' :: (m.text ++ ['"'])) (.value (.string m.value)) :=
    fun m => .string (stringLit_strict.mpr ⟨m.text, rfl, m.escapes⟩)
  induction ms generalizing m with
  | nil =>
    exact ⟨_, by simp [restText], .member space_nil (hkey m) space_nil (hvalue m) space_nil⟩
  | cons m' ms ih =>
    obtain ⟨ts, hts, hms⟩ := ih m'
    refine ⟨_, ?_, .members space_nil (hkey m) space_nil (hvalue m) space_nil hms⟩
    simp [restText, hts]

/-! ### Recovery -/

lemma open_members {style : Style} (m : StringMember style) (ms : List (StringMember style))
    (hlone : style.loneBackslashes = true → Style.raw.loneBackslashes = true) :
    Open m.key (m.text ++ restText ['\\', '"'] ms) := by
  obtain ⟨s, hs, hascii⟩ := chars_restText ms
  refine ⟨m.isKey, m.value ++ s, (m.escapes.append hs).weaken (fun _ => rfl) hlone, ?_⟩
  exact List.forall_mem_append.mpr ⟨m.ascii, hascii⟩

/-- Unescaping the text unescapes the quotes of the object. -/
lemma stripped_membersText (m : StringMember .strict) (ms : List (StringMember .strict)) :
    Stripped [] (overEscaped m ms) (membersText ['"'] m ms) := by
  have hvalue := m.stripped ms (z := '{' :: '"' :: (m.key ++ ['"'])) (stripped_restText ms _)
  have hfront : '\\' ∉ '{' :: '"' :: (m.key ++ ['"', ':', '"']) := by
    simp [m.isKey.not_mem]
  have happend : Stripped [] ('{' :: '"' :: (m.key ++ ['"', ':', '"']) ++
      (m.text ++ restText ['\\', '"'] ms)) _ := .append_plain hfront (by simpa using hvalue)
  simpa [overEscaped, membersText] using happend

lemma get_ofMembers {style : Style} {ms : List (StringMember style)}
    (hkeys : (ms.map (·.key)).Nodup) :
    (∀ m ∈ ms, Map.get m.key (Map.ofMembers (ms.map (StringMember.entry N))) =
        some (.string m.value)) ∧
      ∀ key, (∀ m ∈ ms, m.key ≠ key) →
        Map.get key (Map.ofMembers (ms.map (StringMember.entry N))) = none := by
  have hget : ∀ key, Map.get key (Map.ofMembers (ms.map (StringMember.entry N))) =
      (ms.map (StringMember.entry N)).reverse.lookup key := by
    intro key
    rw [Map.ofMembers, Map.get_foldl_insert]
    exact Option.or_none
  constructor
  · intro m hm
    obtain ⟨ms₁, ms₂, rfl⟩ := List.append_of_mem hm
    rw [hget, List.lookup_eq_some_iff]
    refine ⟨(ms₂.map (StringMember.entry N)).reverse, (ms₁.map (StringMember.entry N)).reverse,
      by simp [StringMember.entry], ?_⟩
    intro e he
    obtain ⟨m', hm', rfl⟩ := List.mem_map.mp (List.mem_reverse.mp he)
    rw [List.map_append, List.map_cons, List.nodup_append] at hkeys
    have hne := (List.nodup_cons.mp hkeys.2.1).1
    refine bne_iff_ne.mpr fun heq => hne ?_
    rw [heq]
    exact List.mem_map_of_mem hm'
  · intro key hkey
    rw [hget, List.lookup_eq_none_iff]
    intro e he
    obtain ⟨m, hm, rfl⟩ := List.mem_map.mp (List.mem_reverse.mp he)
    exact bne_iff_ne.mpr (hkey m hm).symm

/-- From the text that a model writes when it escapes all quotes behind the one that opens the first
value, the object is recovered. -/
theorem overEscaped_recovered
    (hstrict : ∀ s v, json.fromStr s = some v ↔ Rendering .strict number s v)
    (m : StringMember .raw) (ms : List (StringMember .raw))
    (hkeys : ((m :: ms).map (·.key)).Nodup) :
    ∃ map, lenientParseObject json (overEscaped m ms) = .ok (some (.object map)) ∧
      (∀ m' ∈ m :: ms, Map.get m'.key map = some (.string m'.value)) ∧
      ∀ key, (∀ m' ∈ m :: ms, m'.key ≠ key) → Map.get key map = none := by
  have hread : ∀ s, json.fromStr s = fromStr number s :=
    fun s => Option.ext fun v => by rw [hstrict, rendering_strict_iff]
  obtain ⟨m', hkey, hvalue, hm'⟩ := m.escape
  obtain ⟨ms', hentries, hms'⟩ := escapeControls_restText (N := N) ms
  have hopen : Open m.key (m.text ++ restText ['\\', '"'] ms) := open_members m ms id
  have hopen' : Open m'.key (m'.text ++ restText ['\\', '"'] ms') := open_members m' ms' id
  -- with its control characters escaped, the text is the one of the other members
  have hescaped : escapeStringControls (overEscaped m ms) = .ok (overEscaped m' ms') := by
    have h := escapeStringControls_openText hopen
    rw [hm', hms'] at h
    rw [overEscaped, overEscaped, membersText, membersText, hkey]
    exact h
  have hnone : json.fromStr (overEscaped m ms) = none := (hread _).trans (fromStr_openText hopen)
  have hnone' : json.fromStr (overEscaped m' ms') = none :=
    (hread _).trans (fromStr_openText hopen')
  have hsome : json.fromStr (membersText ['"'] m' ms') =
      some (.object (Map.ofMembers ((m :: ms).map (StringMember.entry N)))) := by
    obtain ⟨t, ht, hrenders⟩ := renders_members number m' ms' 126
    have hentry : (m' :: ms').map (StringMember.entry N) =
        (m :: ms).map (StringMember.entry N) := by
      simp [StringMember.entry, hentries, hkey, hvalue]
    rw [hstrict, ← hentry]
    refine ⟨[], membersText ['"'] m' ms', [], space_nil, ?_, space_nil, by simp⟩
    rw [membersText, ht]
    exact .object hrenders
  obtain ⟨rewritten, hrewritten, hstripped⟩ :=
    unEscapeStructuralQuotes_stripped (overEscaped m' ms')
  have heq := hstripped.unique (stripped_membersText m' ms')
  have hrewritten' : rewritten = some (membersText ['"'] m' ms') := by
    cases rewritten with
    | some text => rw [← heq]; rfl
    | none =>
      rw [← heq] at hsome
      exact absurd (hnone'.symm.trans hsome) nofun
  have hquoted : quoteBareKeys (overEscaped m ms) = .ok (overEscaped m ms) :=
    quoteBareKeys_openText hopen
  have hne : membersText ['"'] m' ms' ≠ overEscaped m' ms' := by
    intro heq
    rw [heq, hnone'] at hsome
    cases hsome
  refine ⟨_, ?_, get_ofMembers hkeys⟩
  simp [lenientParseObject, hquoted, hnone, hescaped, hnone', hrewritten, hrewritten', hne, hsome,
    pure_eq_ok]

/-- `{"cmd":"say \"a\\b⇥\"\",\"x.y\":\"\"}` -/
def printText : Str := "\x7b\"cmd\":\"say \\\"a\\\\b\t\\\"\\\",\\\"x.y\\\":\\\"\\\"\x7d".toList

def printMember : StringMember .raw where
  key := "cmd".toList
  value := "say \"a\\b\t\"".toList
  text := "say \\\"a\\\\b\t\\\"".toList
  isKey := ⟨'c', "md".toList, rfl, by decide, by decide, by simp; decide⟩
  ascii := by simp; decide
  apart := by decide
  escapes := by
    have hsay : Chars .raw "say ".toList "say ".toList := chars_self (by simp)
    have hquote : Unescapes ['"'] '"' := .short rfl
    have hbackslash : Unescapes ['\\'] '\\' := .short rfl
    have htab : Chars .raw "\t\\\"".toList "\t\"".toList :=
      .rawControl rfl (by decide) (.escape hquote .nil)
    have hab : Chars .raw "\\\"a\\\\b\t\\\"".toList "\"a\\b\t\"".toList :=
      .escape hquote (.plain (by decide) (by decide) (by decide) (.escape hbackslash
        (.plain (by decide) (by decide) (by decide) htab)))
    exact hsay.append hab

def emptyMember : StringMember .raw where
  key := "x.y".toList
  value := []
  text := []
  isKey := ⟨'x', ".y".toList, rfl, by decide, by decide, by simp; decide⟩
  ascii := nofun
  apart := by decide
  escapes := .nil

/-- Quotes, a backslash and a raw tab in a value, and an empty value. -/
theorem overEscaped_recovered_demo :
    ∃ map, lenientParseObject (strictJson readDigits) printText = .ok (some (.object map)) ∧
      Map.get "cmd".toList map = some (.string "say \"a\\b\t\"".toList) ∧
      Map.get "x.y".toList map = some (.string []) := by
  have hstrict : ∀ s v, (strictJson readDigits).fromStr s = some v ↔
      Rendering .strict readDigits s v := fun _ _ => rendering_strict_iff.symm
  obtain ⟨map, hmap, hget, -⟩ :=
    overEscaped_recovered hstrict printMember [emptyMember] (by decide)
  exact ⟨map, hmap, hget printMember (by simp), hget emptyMember (by simp)⟩

end ModelApi.Gemma
