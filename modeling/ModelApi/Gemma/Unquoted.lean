import ModelApi.Gemma.LoneQuote
import ModelApi.Gemma.Recovery

/-!
# Arguments without quotes

What the lenient parser makes of a text that has no quote in it: the only strings are the keys that
its first pass has quoted, the passes behind it find nothing to repair, and what is not JSON by then
goes to the rescue of a bare value.
-/

namespace ModelApi.Gemma

open Lib Lib.Str

variable {N : Type} {json : SerdeJson N}

/-! ### Cutting in front of a comma or a brace -/

lemma span_append_cons {p : Char → Bool} {c : Char} (hc : p c = false) (s r : Str) :
    (s ++ c :: r).takeWhile p = s.takeWhile p ∧
      (s ++ c :: r).dropWhile p = s.dropWhile p ++ c :: r := by
  induction s with
  | nil => simp [hc]
  | cons d s ih =>
    by_cases hd : p d = true
    · simp [hd, ih.1, ih.2]
    · simp [hd]

lemma isIdentByte_of_mem_marks {c : Char} (h : c ∈ marks) : isIdentByte c = false := by
  simp only [marks, List.mem_cons, List.not_mem_nil, or_false] at h
  rcases h with rfl | rfl | rfl | rfl | rfl | rfl <;> rfl

/-- Outside of strings, the text can be cut in front of a bracket, a brace or a comma. -/
lemma quoteKeys_append_mark (prev : Bool) {c : Char} (hc : c ∈ marks) (hcolon : c ≠ ':') {s : Str}
    (hs : '"' ∉ s) (r : Str) :
    quoteKeys false prev (s ++ c :: r) =
      quoteKeys false prev s ++ c :: quoteKeys false (opensKey c) r := by
  cases s with
  | nil => rw [quoteKeys_nil, List.nil_append, quoteKeys_mark hc, List.nil_append]
  | cons b s =>
    rw [List.mem_cons, not_or] at hs
    obtain ⟨hb, hs⟩ := hs
    have hb : b ≠ '"' := fun h => hb h.symm
    rw [List.cons_append]
    by_cases hopen : b = '{' ∨ b = ','
    · rw [quoteKeys_open hopen, quoteKeys_open hopen, quoteKeys_append_mark true hc hcolon hs,
        List.cons_append]
    · by_cases hws : isAsciiWhitespace b = true
      · rw [quoteKeys_space hws, quoteKeys_space hws, quoteKeys_append_mark prev hc hcolon hs,
          List.cons_append]
      · by_cases hident : prev = true ∧ isIdentStart b = true
        · obtain ⟨rfl, hstart⟩ := hident
          obtain ⟨htake, hdrop⟩ := span_append_cons (isIdentByte_of_mem_marks hc) s r
          obtain ⟨htakeWs, hdropWs⟩ := span_append_cons (p := isAsciiWhitespace)
            (not_word_of_mem_marks hc).2.1 (s.dropWhile isIdentByte) r
          have hrest : '"' ∉ s.dropWhile isIdentByte :=
            fun h => hs ((List.dropWhile_suffix _).subset h)
          have hlt := List.length_dropWhile_le isIdentByte s
          have hlt' := List.length_dropWhile_le isAsciiWhitespace (s.dropWhile isIdentByte)
          have ih := quoteKeys_append_mark false hc hcolon hrest r
          rw [quoteKeys_ident hstart, quoteKeys_ident hstart, htake, hdrop]
          simp only [htakeWs, hdropWs]
          cases hbehind : (s.dropWhile isIdentByte).dropWhile isAsciiWhitespace with
          | nil =>
            -- the mark stands where a separator would
            have heq : c ≠ '=' := by
              rintro rfl
              exact absurd hc (by decide)
            simp [heq, hcolon, ih]
          | cons d behind =>
            have hmem : '"' ∉ behind := by
              intro h
              apply hrest
              apply (List.dropWhile_suffix isAsciiWhitespace).subset
              rw [hbehind]
              exact List.mem_cons_of_mem d h
            have hlt'' : behind.length < s.length + 1 := by
              rw [hbehind, List.length_cons] at hlt'
              omega
            have ih' := quoteKeys_append_mark false hc hcolon hmem r
            by_cases heq : d = '='
            · simp [heq, ih']
            · by_cases hd : d = ':'
              · simp [hd, ih]
              · simp [heq, hd, ih]
        · rw [quoteKeys_other hb hopen hws hident, quoteKeys_other hb hopen hws hident,
            quoteKeys_append_mark false hc hcolon hs, List.cons_append]
termination_by s.length
decreasing_by
  all_goals subst_vars
  all_goals simp only [List.length_cons]
  all_goals omega

/-! ### Texts without keys -/

/-- An identifier and a separator, with white space in front of each. -/
def KeyStart (s : Str) : Prop :=
  ∃ ws k ws' : Str, ∃ sep rest, s = ws ++ (k ++ (ws' ++ sep :: rest)) ∧
    (∀ c ∈ ws ++ ws', isAsciiWhitespace c = true) ∧ IsIdent k ∧ (sep = ':' ∨ sep = '=')

/-- Nowhere behind a `{` or a `,` stands a key. -/
def KeyFree (s : Str) : Prop :=
  ∀ front c back, s = front ++ c :: back → opensKey c = true → ¬ KeyStart back

lemma KeyFree.suffix {front s : Str} (h : KeyFree (front ++ s)) : KeyFree s := by
  rintro front' c back rfl
  exact h (front ++ front') c back (by simp)

lemma KeyFree.tail {b : Char} {s : Str} (h : KeyFree (b :: s)) : KeyFree s :=
  KeyFree.suffix (s := s) (by exact h : KeyFree ([b] ++ s))

lemma KeyStart.space {b : Char} {s : Str} (hb : isAsciiWhitespace b = true) (h : KeyStart s) :
    KeyStart (b :: s) := by
  obtain ⟨ws, k, ws', sep, rest, rfl, hws, hrest⟩ := h
  exact ⟨b :: ws, k, ws', sep, rest, rfl, List.forall_mem_cons.mpr ⟨hb, hws⟩, hrest⟩

/-- Where an identifier stands that is no key, no separator is behind it. -/
lemma head_of_not_keyStart {b : Char} {s : Str} (hstart : isIdentStart b = true)
    (h : ¬ KeyStart (b :: s)) {sep : Char} (hsep : sep = ':' ∨ sep = '=') :
    ((s.dropWhile isIdentByte).dropWhile isAsciiWhitespace).head? ≠ some sep := by
  intro hhead
  obtain ⟨rest, hrest⟩ := List.head?_eq_some_iff.mp hhead
  have hident : IsIdent (b :: s.takeWhile isIdentByte) :=
    ⟨⟨b, rfl, hstart⟩, List.forall_mem_cons.mpr
      ⟨isIdentByte_of_isIdentStart hstart, fun _ hc => List.mem_takeWhile_imp hc⟩⟩
  refine h ⟨[], _, (s.dropWhile isIdentByte).takeWhile isAsciiWhitespace, sep, rest, ?_, ?_, hident,
    hsep⟩
  · rw [List.nil_append, ← hrest, List.takeWhile_append_dropWhile, List.cons_append,
      List.takeWhile_append_dropWhile]
  · exact fun _ hc => List.mem_takeWhile_imp hc

/-- Where there is no key, there is nothing to quote. -/
lemma quoteKeys_of_keyFree (prev : Bool) {s : Str} (hs : '"' ∉ s) (hfree : KeyFree s)
    (hstart : prev = true → ¬ KeyStart s) : quoteKeys false prev s = s := by
  cases s with
  | nil => exact quoteKeys_nil false prev
  | cons b s =>
    rw [List.mem_cons, not_or] at hs
    obtain ⟨hb, hs⟩ := hs
    have hb : b ≠ '"' := fun h => hb h.symm
    by_cases hopen : b = '{' ∨ b = ','
    · rw [quoteKeys_open hopen, quoteKeys_of_keyFree true hs hfree.tail]
      exact fun _ => hfree [] b s rfl (by simpa [opensKey] using hopen)
    · by_cases hws : isAsciiWhitespace b = true
      · rw [quoteKeys_space hws, quoteKeys_of_keyFree prev hs hfree.tail]
        exact fun hprev h => hstart hprev (h.space hws)
      · by_cases hident : prev = true ∧ isIdentStart b = true
        · obtain ⟨rfl, hident⟩ := hident
          have hsplit := List.takeWhile_append_dropWhile (p := isIdentByte) (l := s)
          have hrest : '"' ∉ s.dropWhile isIdentByte :=
            fun h => hs ((List.dropWhile_suffix _).subset h)
          have hfree' : KeyFree (s.dropWhile isIdentByte) := by
            have h : KeyFree ((b :: s.takeWhile isIdentByte) ++ s.dropWhile isIdentByte) := by
              rwa [List.cons_append, hsplit]
            exact h.suffix
          have hlt := List.length_dropWhile_le isIdentByte s
          rw [quoteKeys_ident hident]
          simp only [head_of_not_keyStart hident (hstart rfl) (.inr rfl),
            head_of_not_keyStart hident (hstart rfl) (.inl rfl), if_false]
          rw [quoteKeys_of_keyFree false hrest hfree' (by simp), List.cons_append, hsplit]
        · rw [quoteKeys_other hb hopen hws hident,
            quoteKeys_of_keyFree false hs hfree.tail (by simp)]
termination_by s.length
decreasing_by
  all_goals subst_vars
  all_goals simp only [List.length_cons]
  all_goals omega

/-! ### Keys are the only strings -/

/-- The only strings are identifiers, and no backslash is in front of a quote. -/
inductive Keyed : Str → Prop where
  | nil : Keyed []
  | byte {c : Char} {t : Str} (hc : c ≠ '"') (hescape : c = '\\' → t.head? ≠ some '"')
      (h : Keyed t) : Keyed (c :: t)
  | key {ident t : Str} (hident : ∀ c ∈ ident, isIdentByte c = true) (h : Keyed t) :
      Keyed ('"' :: (ident ++ '"' :: t))

namespace Keyed

variable {t : Str}

lemma append {s : Str} (hs : ∀ c ∈ s, c ≠ '"' ∧ c ≠ '\\') (h : Keyed t) : Keyed (s ++ t) := by
  induction s with
  | nil => exact h
  | cons c s ih =>
    obtain ⟨⟨hquote, hbackslash⟩, hs⟩ := List.forall_mem_cons.mp hs
    exact .byte hquote (fun hc => absurd hc hbackslash) (ih hs)

lemma bytes (h : Keyed t) : Keyed (bytes t) := by
  induction h with
  | nil => exact .nil
  | @byte c t hc hescape h ih =>
    by_cases hascii : isAscii c
    · rw [bytes_cons_of_isAscii hascii]
      refine .byte hc (fun hc hquote => ?_) ih
      obtain ⟨r, hr⟩ := List.head?_eq_some_iff.mp hquote
      obtain ⟨t, rfl, -⟩ := exists_of_bytes_eq_cons (by decide) hr
      exact hescape hc rfl
    · obtain ⟨lead, conts, henc, hlead, hconts⟩ := encodeChar_of_not_isAscii hascii
      rw [bytes_cons, henc]
      refine ih.append fun b hb => ?_
      have hge : 0x80 ≤ b.toNat := by
        rcases List.mem_cons.mp hb with rfl | hb
        · omega
        · exact (hconts b hb).1
      constructor
      · rintro rfl
        revert hge
        decide
      · rintro rfl
        revert hge
        decide
  | @key ident t hident h ih =>
    rw [bytes_cons_of_isAscii (by decide), bytes_append, bytes_cons_of_isAscii (by decide),
      bytes_of_isAscii fun c hc => isAscii_of_isIdentByte (hident c hc)]
    exact .key hident ih

/-- There is nothing to escape. -/
lemma escapeControls_eq (h : Keyed t) : escapeControls false t = t := by
  induction h with
  | nil => rfl
  | @byte c t hc hescape h ih =>
    rw [escapeControls, decide_eq_false hc, ih]
  | @key ident t hident h ih =>
    have hcopy : escapeControls true (ident ++ '"' :: t) = ident ++ '"' :: t := by
      clear h
      induction ident with
      | nil => simp [escapeControls, ih]
      | cons c ident ih' =>
        obtain ⟨hc, hident⟩ := List.forall_mem_cons.mp hident
        obtain ⟨hquote, hbackslash, hctl⟩ := plain_of_isIdentByte hc
        rw [List.cons_append, escapeControls_plain hquote hbackslash hctl, ih' hident]
    rw [escapeControls, decide_eq_true rfl, hcopy]

/-- There is no escaped quote. -/
lemma not_infix (h : Keyed t) : ¬ ['\\', '"'] <:+: t := by
  induction h with
  | nil => simp
  | @byte c t hc hescape h ih =>
    rw [List.infix_cons_iff, not_or]
    refine ⟨fun hpre => ?_, ih⟩
    obtain ⟨rfl, r, rfl⟩ := List.cons_prefix_cons.mp hpre
    exact hescape rfl rfl
  | @key ident t hident h ih =>
    have hident' : '\\' ∉ ident := fun hmem => absurd (hident _ hmem) (by decide)
    exact not_infix_cons (by decide) (not_infix_append hident' (not_infix_cons (by decide) ih))

end Keyed

/-- Away from a `{` and a `,` nothing is put in front of a text. -/
lemma head_quoteKeys {s : Str} (hs : '"' ∉ s) : (quoteKeys false false s).head? ≠ some '"' := by
  cases s with
  | nil => simp
  | cons b s =>
    have hb : b ≠ '"' := fun h => hs (h ▸ List.mem_cons_self)
    have hhead : ∃ prev, quoteKeys false false (b :: s) = b :: quoteKeys false prev s := by
      by_cases hopen : b = '{' ∨ b = ','
      · exact ⟨true, quoteKeys_open hopen⟩
      · by_cases hws : isAsciiWhitespace b = true
        · exact ⟨false, quoteKeys_space hws⟩
        · exact ⟨false, quoteKeys_other hb hopen hws (by simp)⟩
    obtain ⟨prev, heq⟩ := hhead
    simp [heq, hb]

lemma keyed_quoteKeys (prev : Bool) {s : Str} (hs : '"' ∉ s) : Keyed (quoteKeys false prev s) := by
  cases s with
  | nil =>
    rw [quoteKeys_nil]
    exact .nil
  | cons b s =>
    rw [List.mem_cons, not_or] at hs
    obtain ⟨hb, hs⟩ := hs
    have hb : b ≠ '"' := fun h => hb h.symm
    by_cases hopen : b = '{' ∨ b = ','
    · rw [quoteKeys_open hopen]
      refine .byte hb (fun hbackslash => ?_) (keyed_quoteKeys true hs)
      rcases hopen with rfl | rfl <;> cases hbackslash
    · by_cases hws : isAsciiWhitespace b = true
      · rw [quoteKeys_space hws]
        refine .byte hb (fun hbackslash => ?_) (keyed_quoteKeys prev hs)
        subst hbackslash
        cases hws
      · by_cases hident : prev = true ∧ isIdentStart b = true
        · obtain ⟨rfl, hstart⟩ := hident
          have hident : ∀ c ∈ b :: s.takeWhile isIdentByte, isIdentByte c = true :=
            List.forall_mem_cons.mpr
              ⟨isIdentByte_of_isIdentStart hstart, fun c hc => List.mem_takeWhile_imp hc⟩
          have hrest : '"' ∉ s.dropWhile isIdentByte :=
            fun h => hs ((List.dropWhile_suffix _).subset h)
          have htail : '"' ∉ ((s.dropWhile isIdentByte).dropWhile isAsciiWhitespace).tail :=
            fun h => hrest ((List.dropWhile_suffix _).subset (List.mem_of_mem_tail h))
          have hlt := List.length_dropWhile_le isIdentByte s
          have hlt' := List.length_dropWhile_le isAsciiWhitespace (s.dropWhile isIdentByte)
          rw [quoteKeys_ident hstart]
          simp only
          split_ifs
          · have hspace : ∀ c ∈ (s.dropWhile isIdentByte).takeWhile isAsciiWhitespace ++ [':'],
                c ≠ '"' ∧ c ≠ '\\' := by
              intro c hc
              rcases List.mem_append.mp hc with hc | hc
              · have hspace := List.mem_takeWhile_imp hc
                refine ⟨(ne_of_isAsciiWhitespace hspace).1, ?_⟩
                rintro rfl
                cases hspace
              · rw [List.mem_singleton] at hc
                exact ⟨by simp [hc], by simp [hc]⟩
            have htail' := (keyed_quoteKeys false htail).append hspace
            simpa using Keyed.key hident htail'
          · have hrest' := keyed_quoteKeys false hrest
            simpa using Keyed.key hident hrest'
          · refine (keyed_quoteKeys false hrest).append fun c hc => ?_
            obtain ⟨hquote, hbackslash, -⟩ := plain_of_isIdentByte (hident c hc)
            exact ⟨hquote, hbackslash⟩
        · rw [quoteKeys_other hb hopen hws hident]
          exact .byte hb (fun _ => head_quoteKeys hs) (keyed_quoteKeys false hs)
termination_by s.length
decreasing_by
  all_goals subst_vars
  all_goals simp only [List.length_cons, List.length_tail]
  all_goals omega

/-! ### The parser -/

/-- Keys are quoted, and then nothing is repaired. -/
lemma lenientParseObject_of_no_quote {raw : Str} (hraw : '"' ∉ raw) :
    lenientParseObject json raw =
      match (json.fromStr (quotedKeys raw)).or (json.fromStr (quotedKeys raw).bytes) with
      | some v => .ok (some v)
      | none   => bareValueRescue json (quotedKeys raw) := by
  have hbytes : '"' ∉ raw.bytes := fun hmem => hraw (mem_of_mem_bytes (by decide) hmem)
  have hkeyed : Keyed (quotedKeys raw) := keyed_quoteKeys false hbytes
  have hkeys : quoteBareKeys raw = .ok (quotedKeys raw) := quoteBareKeys_eq raw
  have hescaped : escapeStringControls (quotedKeys raw) = .ok (quotedKeys raw).bytes := by
    rw [escapeStringControls_eq, hkeyed.bytes.escapeControls_eq]
  have hrewritten : unEscapeStructuralQuotes (quotedKeys raw).bytes = .ok none := by
    rw [unEscapeStructuralQuotes, if_pos]
    simpa using contains_eq_false.mpr hkeyed.bytes.not_infix
  rw [lenientParseObject, hkeys, ok_bind]
  cases hquoted : json.fromStr (quotedKeys raw) with
  | some v => rfl
  | none =>
    simp only [hescaped, ok_bind, fromStr_if_ne _ _ hquoted, Option.none_or]
    cases hbytes : json.fromStr (quotedKeys raw).bytes with
    | some v => rfl
    | none =>
      simp only [hrewritten, ok_bind, Option.bind_none]

/-- An object with one member, of which the key is quoted. -/
def singleMember (k value : Str) : Str := '{' :: '"' :: (k ++ '"' :: ':' :: (value ++ ['}']))

/-- What the rescue of a bare value makes of an object with one key and of what stands behind it. -/
lemma bareValueRescue_singleMember {k w t w' : Str} (hk : IsIdent k) (hw : Blank w) (hw' : Blank w')
    (hne : t ≠ []) (hhead : ∀ c, t.head? = some c → isWhitespace c = false)
    (hlast : ∀ c, t.getLast? = some c → isWhitespace c = false) :
    bareValueRescue json (singleMember k (w ++ t ++ w')) =
      match json.fromStr t with
      | some v => .ok (some (.object [(k, v)]))
      | none   =>
        if topLevelComma 0 false t.bytes then .ok none
        else if ['"'] <+: t then .ok none
        else .ok (some (.object [(k, .string t)])) := by
  have hident : ∀ c, isIdentByte c = false → c ∉ k := by
    intro c hc hmem
    rw [hk.2 c hmem] at hc
    cases hc
  have houter : trim (singleMember k (w ++ t ++ w')) =
      ['{'] ++ (('"' :: (k ++ '"' :: ':' :: (w ++ t ++ w'))) ++ ['}']) := by
    have hclose : (['{'] ++ (('"' :: (k ++ '"' :: ':' :: (w ++ t ++ w'))) ++ ['}'])).getLast? =
        some '}' := by
      rw [← List.append_assoc, List.getLast?_append]
      rfl
    have := trim_append (s := ['{'] ++ (('"' :: (k ++ '"' :: ':' :: (w ++ t ++ w'))) ++ ['}']))
      blank_nil blank_nil (by rintro c ⟨⟩; rfl) (by rw [hclose]; rintro c ⟨⟩; rfl)
    simpa [singleMember] using this
  have hinner : trim ('"' :: (k ++ '"' :: ':' :: (w ++ t ++ w'))) =
      '"' :: (k ++ ['"']) ++ ':' :: (w ++ t) := by
    have hend : ∀ c, ('"' :: (k ++ ['"']) ++ ':' :: (w ++ t)).getLast? = some c →
        isWhitespace c = false := by
      intro c hc
      obtain ⟨d, hd⟩ := Option.ne_none_iff_exists'.mp (mt List.getLast?_eq_none_iff.mp hne)
      apply hlast
      simpa [List.getLast?_append, List.getLast?_cons, hd] using hc
    have := trim_append blank_nil hw' (by rintro c ⟨⟩; rfl) hend
    simpa using this
  have hcolon : ':' ∉ '"' :: (k ++ ['"']) := by
    have := hident ':' rfl
    simp [this]
  have hfind : find [':'] ('"' :: (k ++ ['"']) ++ ':' :: (w ++ t)) =
      some (len ('"' :: (k ++ ['"']))) := by
    rw [find_eq_splitFirst, splitFirst_singleton.mpr ⟨rfl, hcolon⟩]
    rfl
  have hfront : slice ('"' :: (k ++ ['"']) ++ ':' :: (w ++ t)) 0 (len ('"' :: (k ++ ['"']))) =
      .ok (['"'] ++ k ++ ['"']) := by
    have := slice_append [] ('"' :: (k ++ ['"'])) (':' :: (w ++ t))
    simpa using this
  have hback : sliceFrom ('"' :: (k ++ ['"']) ++ ':' :: (w ++ t)) (len ('"' :: (k ++ ['"'])) + 1) =
      .ok (w ++ t) := by
    have := sliceFrom_append ('"' :: (k ++ ['"']) ++ [':']) (w ++ t)
    have hone : len [':'] = 1 := rfl
    rw [len_append, hone] at this
    simpa using this
  have hkey : trim (['"'] ++ k ++ ['"']) = ['"'] ++ k ++ ['"'] := by
    have hend : (['"'] ++ k ++ ['"']).getLast? = some '"' := List.getLast?_concat
    have := trim_append (s := ['"'] ++ k ++ ['"']) blank_nil blank_nil (by rintro c ⟨⟩; rfl)
      (by rw [hend]; rintro c ⟨⟩; rfl)
    simpa using this
  have hquote : contains k ['"'] = false := by
    refine contains_eq_false.mpr fun hinfix => hident '"' rfl ?_
    exact hinfix.subset List.mem_cons_self
  have hvalue : trim (w ++ t) = t := by
    have := trim_append hw blank_nil hhead hlast
    simpa using this
  have hquotes : ¬ (¬ ['"'] <+: ['"'] ++ k ++ ['"'] ∨ ¬ ['"'] <:+ ['"'] ++ k ++ ['"']) := by
    rw [not_or, not_not, not_not]
    exact ⟨⟨k ++ ['"'], by simp⟩, ⟨['"'] ++ k, rfl⟩⟩
  rw [bareValueRescue, houter, stripPrefix_eq_some.mpr rfl, Option.bind_some,
    stripSuffix_eq_some.mpr rfl]
  simp only [hinner, hfind, hfront, ok_bind, hkey, if_neg hquotes, slice_between_quotes, hquote,
    hback, hvalue, hne, Bool.false_eq_true, if_false]
  cases json.fromStr t with
  | some v => rfl
  | none =>
    simp only [hasTopLevelComma_eq, ok_bind]
    split_ifs <;> rfl

end ModelApi.Gemma
