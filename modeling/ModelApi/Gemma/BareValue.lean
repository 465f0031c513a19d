import ModelApi.Gemma.Unquoted

/-!
# A bare value

Arguments with one key and a value without quotes: the value is taken as it is, unless it becomes
JSON when its keys are quoted.
-/

namespace ModelApi.Gemma

open Lib Lib.Str

variable {N : Type} {number : Str → Option N} {json : SerdeJson N}

/-! ### Reading members -/

lemma stringLit_of_isIdent {k : Str} (hk : IsIdent k) : StringLit .strict ('"' :: (k ++ ['"'])) k :=
  stringLit_strict.mpr ⟨k, rfl, chars_of_isIdent hk⟩

/-- A text that starts with a quoted key is read as a member. -/
lemma parseMembers_key (number : Str → Option N) (fuel n : ℕ) {w k : Str} (hw : Space w)
    (hk : StringLit .strict ('"' :: (k ++ ['"'])) k) (s : Str) :
    parseMembers number (fuel + 1) n (w ++ '"' :: (k ++ '"' :: ':' :: s)) =
      (parseValue number fuel n (skipSpace s)).bind fun p =>
        match expect ',' (skipSpace p.2) with
        | some s => (parseMembers number fuel n s).map fun ms => ((k, p.1) :: ms.1, ms.2)
        | none   => (expect '}' (skipSpace p.2)).map fun s => ([(k, p.1)], s) := by
  have hskip : skipSpace (w ++ '"' :: (k ++ '"' :: ':' :: s)) = '"' :: (k ++ '"' :: ':' :: s) :=
    skipSpace_cons hw (by decide)
  have hkey : parseString ('"' :: (k ++ '"' :: ':' :: s)) = some (k, ':' :: s) :=
    parseString_eq_some.mpr ⟨_, by simp, hk⟩
  have hskip' : skipSpace (':' :: s) = ':' :: s := skipSpace_cons space_nil (by decide)
  rw [parseMembers, hskip, hkey]
  simp only [Option.bind_eq_bind, Option.bind_some, hskip', expect_cons_self]
  cases parseValue number fuel n (skipSpace s) with
  | none => rfl
  | some p =>
    simp only [Option.bind_some]
    cases expect ',' (skipSpace p.2) with
    | some s' =>
      simp only
      cases parseMembers number fuel n s' <;> rfl
    | none =>
      simp only
      cases expect '}' (skipSpace p.2) <;> rfl

/-- An object that does not end right away is read as its members. -/
lemma fromStr_object (s : Str) :
    fromStr number ('{' :: '"' :: s) =
      (parseMembers number (s.length + 2) 126 ('"' :: s)).bind fun p =>
        if skipSpace p.2 = [] then some (.object (Map.ofMembers p.1)) else none := by
  have hskip : skipSpace ('{' :: '"' :: s) = '{' :: '"' :: s := skipSpace_cons space_nil (by decide)
  have hskip' : skipSpace ('"' :: s) = '"' :: s := skipSpace_cons space_nil (by decide)
  have hclose : expect '}' ('"' :: s) = none := expect_eq_none (by decide)
  rw [fromStr, hskip]
  simp only [MAX_NESTING, List.length_cons, parseValue, List.head?_cons, List.tail_cons, hskip',
    hclose]
  cases parseMembers number (s.length + 1 + 1) 126 ('"' :: s) <;> rfl

/-! ### A single value -/

lemma Renders.succ {style : Style} {n : ℕ} {t : Str} {node : Node N}
    (h : Renders style number n t node) : Renders style number (n + 1) t node := by
  induction h with
  | null => exact .null
  | true => exact .true
  | false => exact .false
  | number hlit hx => exact .number hlit hx
  | string h => exact .string h
  | emptyArray hw => exact .emptyArray hw
  | array _ ih => exact .array ih
  | emptyObject hw => exact .emptyObject hw
  | object _ ih => exact .object ih
  | element hw _ hw' ih => exact .element hw ih hw'
  | elements hw _ hw' _ ih ihs => exact .elements hw ih hw' ihs
  | member hw hkey hw' _ hw'' ih => exact .member hw hkey hw' ih hw''
  | members hw hkey hw' _ hw'' _ ih ihs => exact .members hw hkey hw' ih hw'' ihs

/-- An object with one key and no comma is JSON only if what stands behind the key is. -/
lemma rendering_of_singleMember {k s : Str} {v : Value N} (hk : IsIdent k) (hs : ',' ∉ s)
    (h : Rendering .strict number (singleMember k s) v) :
    ∃ w, v = .object [(k, w)] ∧ Rendering .strict number s w := by
  have hread := parseMembers_key number ((k ++ '"' :: ':' :: (s ++ ['}'])).length + 1)
    126 space_nil (stringLit_of_isIdent hk) (s ++ ['}'])
  rw [List.nil_append] at hread
  rw [rendering_strict_iff, singleMember, fromStr_object, hread] at h
  obtain ⟨⟨ms, r⟩, hmembers, hend⟩ := Option.bind_eq_some_iff.mp h
  obtain ⟨⟨w, r₁⟩, hvalue, hrest⟩ := Option.bind_eq_some_iff.mp hmembers
  obtain ⟨t, hskip, ht⟩ := (renders_of_parse _).1 _ _ _ _ hvalue
  obtain ⟨w₁, hw₁, heq⟩ := exists_of_skipSpace hskip
  simp only at hrest hend
  split_ifs at hend with hr
  cases hend
  have hspace := skipSpace_eq_nil.mp hr
  split at hrest
  · next s' hs' =>
    -- the text has no comma
    exfalso
    obtain ⟨w₂, -, rfl⟩ := exists_of_skipSpace (expect_eq_some.mp hs')
    have hmem : ',' ∈ s ++ ['}'] := by
      rw [heq]
      simp
    rw [List.mem_append] at hmem
    exact hmem.elim hs (by decide)
  · obtain ⟨s', hs', hpair⟩ := Option.map_eq_some_iff.mp hrest
    obtain ⟨rfl, rfl⟩ := Prod.mk.inj hpair
    obtain ⟨w₂, hw₂, rfl⟩ := exists_of_skipSpace (expect_eq_some.mp hs')
    refine ⟨w, rfl, w₁, t, w₂, hw₁, ht.succ, hw₂, ?_⟩
    -- the last brace is the one that closes the object
    have hnil : s' = [] := by
      cases s' using List.reverseRecOn with
      | nil => rfl
      | append_singleton s' c =>
        exfalso
        have heq' : s ++ ['}'] = (w₁ ++ (t ++ (w₂ ++ '}' :: s'))) ++ [c] := by simpa using heq
        obtain ⟨-, hc⟩ := List.append_inj' heq' rfl
        obtain rfl : '}' = c := (List.cons.inj hc).1
        exact absurd (hspace '}' (by simp)) (by decide)
    rw [hnil] at heq
    have heq' : s ++ ['}'] = (w₁ ++ (t ++ w₂)) ++ ['}'] := by simpa using heq
    exact List.append_cancel_right heq'

lemma isWhitespace_of_isNumberChar {c : Char} (h : isNumberChar c = true) :
    isWhitespace c = false := by
  simp only [isNumberChar, Bool.or_eq_true, beq_iff_eq] at h
  rcases h with ((((h | rfl) | rfl) | rfl) | rfl) | rfl
  · exact isWhitespace_of_isIdentByte (isIdentByte_of_isDigit h)
  all_goals rfl

/-- A strict rendering starts and ends with something else than white space. -/
lemma ends_of_renders {n : ℕ} {t : Str} {v : Value N} (h : Renders .strict number n t (.value v)) :
    (∀ c, t.head? = some c → isWhitespace c = false) ∧
      ∀ c, t.getLast? = some c → isWhitespace c = false := by
  have hends : ∀ (first last : Char) (s : Str), isWhitespace first = false →
      isWhitespace last = false →
      (∀ c, (first :: (s ++ [last])).head? = some c → isWhitespace c = false) ∧
        ∀ c, (first :: (s ++ [last])).getLast? = some c → isWhitespace c = false := by
    intro first last s hfirst hlast
    refine ⟨fun c hc => ?_, fun c hc => ?_⟩
    · cases hc
      exact hfirst
    · rw [← List.cons_append, List.getLast?_concat] at hc
      cases hc
      exact hlast
  cases h with
  | null => exact hends 'n' 'l' "ul".toList rfl rfl
  | true => exact hends 't' 'e' "ru".toList rfl rfl
  | false => exact hends 'f' 'e' "als".toList rfl rfl
  | number hlit =>
    have hchars := isNumberChar_of_isNumberLiteral hlit
    exact ⟨fun c hc => isWhitespace_of_isNumberChar (hchars c (List.mem_of_mem_head? hc)),
      fun c hc => isWhitespace_of_isNumberChar (hchars c (List.mem_of_getLast? hc))⟩
  | string h =>
    obtain ⟨u, rfl, -⟩ := stringLit_strict.mp h
    exact hends '"' '"' u rfl rfl
  | emptyArray => exact hends '[' ']' _ rfl rfl
  | array => exact hends '[' ']' _ rfl rfl
  | emptyObject => exact hends '{' '}' _ rfl rfl
  | object => exact hends '{' '}' _ rfl rfl

lemma rendering_space {s : Str} {v : Value N} (h : Rendering .strict number (' ' :: s) v) :
    Rendering .strict number s v := by
  obtain ⟨w, t, w', hw, ht, hw', heq⟩ := h
  cases w with
  | nil =>
    obtain ⟨c, t, rfl, hc, -⟩ := exists_of_renders ht
    obtain ⟨rfl, -⟩ := List.cons.inj heq
    cases hc
  | cons c w =>
    exact ⟨w, t, w', fun c hc => hw c (List.mem_cons_of_mem _ hc), ht, hw', (List.cons.inj heq).2⟩

/-- The quoting of keys adds nothing but quotes and colons. -/
lemma mem_of_mem_quoteKeys (inString prev : Bool) {s : Str} {c : Char}
    (h : c ∈ quoteKeys inString prev s) : c ∈ s ∨ c = '"' ∨ c = ':' := by
  cases s with
  | nil => simp at h
  | cons b s =>
    obtain ⟨consumed, rest, piece, inString', prev', hs, hne, hemits, hquote⟩ :=
      quoteKeys_turn inString prev b s
    have hlen : rest.length < (b :: s).length := by
      have := List.length_pos_iff.mpr hne
      rw [hs, List.length_append]
      omega
    rw [hquote, List.mem_append] at h
    rw [hs, List.mem_append]
    rcases h with h | h
    · cases hemits with
      | byte | escape | bare => exact .inl (.inl h)
      | key | keyEq =>
        simp only [List.mem_cons, List.mem_append, List.not_mem_nil, or_false] at h ⊢
        tauto
    · exact (mem_of_mem_quoteKeys inString' prev' h).imp_left .inr
termination_by s.length

lemma topLevelComma_of_not_mem {s : Str} (hs : ',' ∉ s) (depth : Int32) (inString : Bool) :
    topLevelComma depth inString s = false := by
  fun_induction topLevelComma depth inString s with
  | case1 | case2 => rfl
  | case3 depth c s ih => exact ih (List.not_mem_of_not_mem_cons (List.not_mem_of_not_mem_cons hs))
  | case8 depth b s _ _ _ hcomma => simp [hcomma.1] at hs
  | case4 _ _ _ _ ih | case5 _ _ ih | case6 _ _ _ _ _ ih | case7 _ _ _ _ _ _ ih
  | case9 _ _ _ _ _ _ _ ih => exact ih (List.not_mem_of_not_mem_cons hs)

lemma topLevelComma_append {u : Str} (hu : ',' ∉ u) (depth : Int32) (inString : Bool) (s : Str) :
    topLevelComma depth inString (s ++ u) = topLevelComma depth inString s := by
  fun_induction topLevelComma depth inString s with
  | case1 depth inString => exact topLevelComma_of_not_mem hu depth inString
  | case2 depth =>
    cases u with
    | nil => rfl
    | cons c u =>
      exact topLevelComma_of_not_mem (List.not_mem_of_not_mem_cons hu) depth true
  | case3 depth c s ih => exact ih
  | case4 depth b s hb ih => rw [List.cons_append, topLevelComma_true_cons hb, ih]
  | case5 depth s ih => exact ih
  | case6 depth b s hquote hopen ih => simp [topLevelComma, hquote, hopen, ih]
  | case7 depth b s hquote hopen hclose ih => simp [topLevelComma, hquote, hopen, hclose, ih]
  | case8 depth b s hquote hopen hclose hcomma =>
    simp [topLevelComma, hcomma]
  | case9 depth b s hquote hopen hclose hcomma ih =>
    simp only [List.cons_append, topLevelComma, hquote, hopen, hclose, hcomma, if_false, ih]

/-- A value that is not JSON, without a comma, a quote or white space around it. -/
structure BareText (json : SerdeJson N) (v : Str) : Prop where
  ne_nil : v ≠ []
  head : ∀ c, v.head? = some c → isWhitespace c = false
  last : ∀ c, v.getLast? = some c → isWhitespace c = false
  not_json : json.fromStr v = none
  comma : ',' ∉ v
  quote : '"' ∉ v

/-- `{k: v}` -/
def bareMember (k v : Str) : Str := '{' :: (k ++ ':' :: ' ' :: (v ++ ['}']))

section BareMember

variable {k v : Str}

lemma isAscii_of_isIdent (hk : IsIdent k) : ∀ c ∈ k, isAscii c :=
  fun c hc => isAscii_of_isIdentByte (hk.2 c hc)

lemma not_mem_of_isIdent (hk : IsIdent k) {c : Char} (hc : isIdentByte c = false) : c ∉ k := by
  intro hmem
  rw [hk.2 c hmem] at hc
  cases hc

lemma quotedKeys_bareMember (hk : IsIdent k) (hquote : '"' ∉ v) (hascii : ∀ c ∈ v, isAscii c) :
    quotedKeys (bareMember k v) = singleMember k (' ' :: quoteKeys false false v) := by
  have hbytes : (bareMember k v).bytes = '{' :: (k ++ [] ++ [':'] ++ ' ' :: (v ++ ['}'])) := by
    rw [bytes_of_isAscii, bareMember]
    · simp
    · intro c hc
      simp only [bareMember, List.mem_cons, List.mem_append, List.not_mem_nil, or_false] at hc
      rcases hc with rfl | hc | rfl | rfl | hc | rfl
      · decide
      · exact isAscii_of_isIdent hk c hc
      · decide
      · decide
      · exact hascii c hc
      · decide
  rw [quotedKeys, hbytes, quoteKeys_open (.inl rfl), quoteKeys_key hk space_nil (.inl rfl),
    quoteKeys_space (by decide), quoteKeys_append_mark false (by decide) (by decide) hquote]
  simp [singleMember]

/-- The parser reads the value as JSON with its keys quoted, or else leaves it to the rescue. -/
lemma lenientParseObject_bareMember
    (hstrict : ∀ s v, json.fromStr s = some v ↔ Rendering .strict number s v) (hk : IsIdent k)
    (hv : BareText json v) (hascii : ∀ c ∈ v, isAscii c) :
    lenientParseObject json (bareMember k v) =
        bareValueRescue json (singleMember k (' ' :: quoteKeys false false v)) ∨
      ∃ w, json.fromStr (quoteKeys false false v) = some w ∧
        lenientParseObject json (bareMember k v) = .ok (some (.object [(k, w)])) := by
  have hraw : '"' ∉ bareMember k v := by
    simp [bareMember, hv.quote, not_mem_of_isIdent hk (by decide : isIdentByte '"' = false)]
  have hcomma : ',' ∉ ' ' :: quoteKeys false false v := by
    rw [List.mem_cons, not_or]
    refine ⟨by decide, fun hmem => ?_⟩
    rcases mem_of_mem_quoteKeys false false hmem with hmem | hmem | hmem
    · exact hv.comma hmem
    · cases hmem
    · cases hmem
  have hbytes : bytes (singleMember k (' ' :: quoteKeys false false v)) =
      singleMember k (' ' :: quoteKeys false false v) := by
    apply bytes_of_isAscii
    intro c hc
    simp only [singleMember, List.mem_cons, List.mem_append, List.not_mem_nil, or_false] at hc
    rcases hc with rfl | rfl | hc | rfl | rfl | (rfl | hc) | rfl
    · decide
    · decide
    · exact isAscii_of_isIdent hk c hc
    · decide
    · decide
    · decide
    · rcases mem_of_mem_quoteKeys false false hc with hc | rfl | rfl
      · exact hascii c hc
      · decide
      · decide
    · decide
  rw [lenientParseObject_of_no_quote hraw, quotedKeys_bareMember hk hv.quote hascii, hbytes,
    Option.or_self]
  cases hparsed : json.fromStr (singleMember k (' ' :: quoteKeys false false v)) with
  | none => exact .inl rfl
  | some x =>
    obtain ⟨w, rfl, hw⟩ := rendering_of_singleMember hk hcomma ((hstrict _ _).mp hparsed)
    exact .inr ⟨w, (hstrict _ _).mpr (rendering_space hw), rfl⟩

end BareMember

/-- A bare value is taken for the JSON that it is once its keys are quoted, and where it has no keys
it is taken as it is. -/
theorem bareMember_value
    (hstrict : ∀ s v, json.fromStr s = some v ↔ Rendering .strict number s v) {k v : Str}
    (hk : IsIdent k) (hv : BareText json v) (hascii : ∀ c ∈ v, isAscii c) :
    (∀ quoted w, quoteBareKeys v = .ok quoted → json.fromStr quoted = some w →
      lenientParseObject json (bareMember k v) = .ok (some (.object [(k, w)]))) ∧
    (KeyFree v →
      lenientParseObject json (bareMember k v) = .ok (some (.object [(k, .string v)]))) := by
  have hspace : Blank [' '] := blank_cons.mpr ⟨rfl, blank_nil⟩
  constructor
  · intro quoted w hquoted hw
    rw [quoteBareKeys_eq, bytes_of_isAscii hascii] at hquoted
    cases hquoted
    rcases lenientParseObject_bareMember hstrict hk hv hascii with hrescue | ⟨w', hw', hparsed⟩
    · -- the containers around the value are one too many
      obtain ⟨w₁, t, w₂, hw₁, ht, hw₂, heq⟩ := (hstrict _ _).mp hw
      obtain ⟨hhead, hlast⟩ := ends_of_renders ht
      have hne : t ≠ [] := by
        obtain ⟨c, t, rfl, -⟩ := exists_of_renders ht
        exact List.cons_ne_nil c t
      have hblank : ∀ {w : Str}, Space w → Blank w :=
        fun hw c hc => isWhitespace_of_isJsonSpace (hw c hc)
      have hvalue : ' ' :: quoteKeys false false v = (' ' :: w₁) ++ t ++ w₂ := by simp [heq]
      have hread : json.fromStr t = some w :=
        (hstrict _ _).mpr ⟨[], t, [], space_nil, ht, space_nil, by simp⟩
      rw [hrescue, hvalue, bareValueRescue_singleMember hk
        (blank_cons.mpr ⟨rfl, hblank hw₁⟩) (hblank hw₂) hne hhead hlast, hread]
    · rw [hw] at hw'
      cases hw'
      exact hparsed
  · intro hfree
    have hsame : quoteKeys false false v = v := quoteKeys_of_keyFree false hv.quote hfree (by simp)
    rcases lenientParseObject_bareMember hstrict hk hv hascii with hrescue | ⟨w, hw, -⟩
    · have hvalue : ' ' :: v = [' '] ++ v ++ [] := by simp
      have hcomma : topLevelComma 0 false v.bytes = false := by
        rw [bytes_of_isAscii hascii]
        exact topLevelComma_of_not_mem hv.comma 0 false
      have hquote : ¬ ['"'] <+: v := fun h => hv.quote (h.subset List.mem_cons_self)
      rw [hrescue, hsame, hvalue,
        bareValueRescue_singleMember hk hspace blank_nil hv.ne_nil hv.head hv.last, hv.not_json]
      simp [hcomma, hquote]
    · rw [hsame, hv.not_json] at hw
      cases hw

def proseText : Str := "see [a]: b = c".toList

lemma proseText_bare : BareText (strictJson readDigits) proseText where
  ne_nil := by decide
  head := by rintro c ⟨⟩; rfl
  last := by rintro c ⟨⟩; rfl
  not_json := by decide +kernel
  comma := by decide
  quote := by decide

/-- Prose as a value. -/
theorem bareMember_value_demo :
    lenientParseObject (strictJson readDigits) (bareMember "k".toList proseText) =
      .ok (some (.object [("k".toList, .string proseText)])) := by
  have hident : IsIdent "k".toList := ⟨⟨'k', rfl, by decide⟩, by simp; decide⟩
  have hascii : proseText.all (fun c => isAscii c) = true := by decide
  have hopen : proseText.all (fun c => !opensKey c) = true := by decide
  refine (bareMember_value (fun _ _ => rendering_strict_iff.symm) hident proseText_bare
    (fun c hc => of_decide_eq_true (List.all_eq_true.mp hascii c hc))).2 ?_
  intro front c back heq hc
  have := List.all_eq_true.mp hopen c (by rw [heq]; simp)
  rw [hc] at this
  cases this

def nestedText : Str := "\x7ba: 1\x7d".toList

/-- An object with a bare key is read as an object. -/
theorem not_bareMember_verbatim :
    ¬ ∀ (N : Type) (number : Str → Option N) (json : SerdeJson N) (k v : Str) (w : Value N),
      (∀ s v, json.fromStr s = some v ↔ Rendering .strict number s v) → IsIdent k →
      BareText json v → lenientParseObject json (bareMember k v) = .ok (some w) →
      w = .object [(k, .string v)] := by
  intro h
  have hident : IsIdent "k".toList := ⟨⟨'k', rfl, by decide⟩, by simp; decide⟩
  have hbare : BareText (strictJson readDigits) nestedText :=
    ⟨by decide, by rintro c ⟨⟩; rfl, by rintro c ⟨⟩; rfl, by decide +kernel, by decide, by decide⟩
  have hvalue : ((lenientParseObject (strictJson readDigits)
      (bareMember "k".toList nestedText)).toOption.join.map fun w =>
        (w.get "k".toList).bind Value.asStr) = some none := by
    decide +kernel
  obtain ⟨w, hw, hstr⟩ := Option.map_eq_some_iff.mp hvalue
  have hparsed : lenientParseObject (strictJson readDigits) (bareMember "k".toList nestedText) =
      .ok (some w) := by
    cases hresult :
        lenientParseObject (strictJson readDigits) (bareMember "k".toList nestedText) with
    | error e =>
      rw [hresult] at hw
      cases hw
    | ok r =>
      rw [hresult] at hw
      exact congrArg _ hw
  obtain rfl := h ℕ readDigits (strictJson readDigits) "k".toList nestedText w
    (fun _ _ => rendering_strict_iff.symm) hident hbare hparsed
  revert hstr
  decide

end ModelApi.Gemma
