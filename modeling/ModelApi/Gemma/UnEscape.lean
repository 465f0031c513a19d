import ModelApi.Gemma.Structural

/-!
# Structural quotes are unescaped

`un_escape_structural_quotes` takes the backslash off the structural quotes and leaves everything
else as it is: matches of one pattern do not overlap, so that the search finds all of them.
-/

namespace ModelApi.Gemma

open Lib Lib.Str

/-! ### A word is found where it stands -/

lemma span_unique {p : Char → Bool} {w w' s s' : Str} (hw : ∀ c ∈ w, p c = true)
    (hw' : ∀ c ∈ w', p c = true) (hs : ∀ c ∈ s.head?, p c = false)
    (hs' : ∀ c ∈ s'.head?, p c = false) (h : w ++ s = w' ++ s') : w = w' ∧ s = s' := by
  have heq : w = w' := by rw [← (span_append hw hs).1, h, (span_append hw' hs').1]
  subst heq
  exact ⟨rfl, List.append_cancel_left h⟩

lemma OptQuote.unique {q q' v v' : Str} (hq : OptQuote q) (hq' : OptQuote q')
    (h : q ++ v = q' ++ v') : q = q' ∧ v = v' := by
  rcases eq_or_exists_of_quote_append (e := []) hq hq' h with ⟨heq, hv⟩ | ⟨e, hnil, -⟩
  · exact ⟨heq.symm, hv⟩
  · cases hq <;> cases hnil

lemma OptQuote.head {q : Str} (hq : OptQuote q) (s : Str) :
    ∀ c ∈ (q ++ s).head?, c ∈ ['\\', '"', '{', '}', ',', ':'] := by
  cases hq with
  | plain =>
    rintro c ⟨⟩
    decide
  | escaped =>
    rintro c ⟨⟩
    decide

lemma KeyParts.unique {w q k q' w' v w₁ q₁ k₁ q₁' w₁' v₁ : Str} (h : KeyParts w q k q' w')
    (h₁ : KeyParts w₁ q₁ k₁ q₁' w₁')
    (heq : keyText w q k q' w' ++ v = keyText w₁ q₁ k₁ q₁' w₁' ++ v₁) :
    keyText w q k q' w' = keyText w₁ q₁ k₁ q₁' w₁' ∧ v = v₁ := by
  have hspace : ∀ {q : Str}, OptQuote q → ∀ s, ∀ c ∈ (q ++ s).head?, isWhitespace c = false :=
    fun hq s c hc => isWhitespace_eq_false (hq.head s c hc)
  have hkey : ∀ {q : Str}, OptQuote q → ∀ s, ∀ c ∈ (q ++ s).head?, isKeyChar c = false :=
    fun hq s c hc => isKeyChar_eq_false (hq.head s c hc)
  have hcolon : ∀ s : Str, ∀ c ∈ (':' :: s).head?, isWhitespace c = false := by
    rintro s c ⟨⟩
    rfl
  simp only [keyText, List.append_assoc, List.singleton_append] at heq
  obtain ⟨rfl, heq₁⟩ := span_unique h.space h₁.space (hspace h.opens _) (hspace h₁.opens _) heq
  obtain ⟨rfl, heq₂⟩ := h.opens.unique h₁.opens heq₁
  obtain ⟨rfl, heq₃⟩ := span_unique h.key.forall h₁.key.forall (hkey h.closes _) (hkey h₁.closes _)
    heq₂
  obtain ⟨rfl, heq₄⟩ := h.closes.unique h₁.closes heq₃
  obtain ⟨rfl, heq₅⟩ := span_unique h.space' h₁.space' (hcolon _) (hcolon _) heq₄
  exact ⟨rfl, (List.cons.inj heq₅).2⟩

lemma mem_of_append_eq_append {u v e s : Str} {c : Char} (h : u ++ v = e ++ c :: s)
    (hlt : e.length < u.length) : c ∈ u := by
  rcases List.append_eq_append_iff.mp h with ⟨r, rfl, -⟩ | ⟨r, rfl, hr⟩
  · rw [List.length_append] at hlt
    omega
  · cases r with
    | nil =>
      rw [List.append_nil] at hlt
      exact absurd hlt (lt_irrefl _)
    | cons d r =>
      obtain ⟨rfl, -⟩ := List.cons.inj hr
      simp

open Pattern

/-- What a match that covers a place has in front of it. -/
lemma exists_covering {pat : Pattern} (hne : ∀ m, Matches pat m → m ≠ []) {a m b : Str}
    (hm : Matches pat m) :
    ∃ a' e m' b', a = a' ++ e ∧ m' ++ b' = e ++ (m ++ b) ∧ e.length < m'.length ∧
      Matches pat m' ∧ (a'.len, m') ∈ pat.findIter (a ++ m ++ b) := by
  have hpat : ∀ s r, pat.matchStart s = some r → r.length < s.length := by
    intro s r h
    obtain ⟨m, rfl, hm⟩ := exists_of_matchStart h
    have hpos := List.length_pos_iff.mpr (hne m hm)
    rw [List.length_append]
    omega
  obtain ⟨a', m', b', heq, hmem, hm', hle, hlt⟩ := findIter_covers hpat (a := a) (b := b) hm
  rw [List.append_assoc, List.append_assoc] at heq
  rcases List.append_eq_append_iff.mp heq with ⟨e, rfl, hm''⟩ | ⟨e, rfl, hm''⟩
  · rw [List.length_append] at hle
    obtain rfl : e = [] := List.length_eq_zero_iff.mp (by omega)
    refine ⟨a ++ [], [], m', b', by simp, by simpa using hm''.symm, ?_, hm', hmem⟩
    exact List.length_pos_iff.mpr (hne m' hm')
  · rw [List.length_append] at hlt
    exact ⟨a', e, m', b', rfl, hm'', by omega, hm', hmem⟩

lemma mem_findIter_KV_PAIR {m : Str} (hm : Matches STRUCTURAL_KV_PAIR m) (a b : Str) :
    (a.len, m) ∈ STRUCTURAL_KV_PAIR.findIter (a ++ m ++ b) := by
  have hne : ∀ m, Matches STRUCTURAL_KV_PAIR m → m ≠ [] := by
    intro m hm
    obtain ⟨d, w, q, k, q', w', w'', q'', -, -, -, -, rfl⟩ := matches_KV_PAIR.mp hm
    exact List.cons_ne_nil _ _
  obtain ⟨a', e, m', b', rfl, heq, hlt, hm', hmem⟩ := exists_covering hne (a := a) (b := b) hm
  obtain ⟨d, w, q, k, q', w', w'', q'', hd, hparts, hw'', hq'', rfl⟩ := matches_KV_PAIR.mp hm
  obtain ⟨d₁, w₁, q₁, k₁, q₁', w₁', w₁'', q₁'', hd₁, hparts₁, hw₁'', hq₁'', rfl⟩ :=
    matches_KV_PAIR.mp hm'
  cases e with
  | nil =>
    rw [List.append_nil] at hmem ⊢
    simp only [List.cons_append, List.append_assoc, List.nil_append] at heq
    obtain ⟨rfl, htail⟩ := List.cons.inj heq
    obtain ⟨hkey, hvalue⟩ := hparts₁.unique hparts htail
    obtain ⟨rfl, hquote⟩ := span_unique hw₁'' hw''
      (fun c hc => isWhitespace_eq_false (hq₁''.head _ c hc))
      (fun c hc => isWhitespace_eq_false (hq''.head _ c hc)) hvalue
    obtain ⟨rfl, -⟩ := hq₁''.unique hq'' hquote
    rwa [hkey] at hmem
  | cons c e =>
    -- no brace and no comma is inside a match
    exfalso
    obtain ⟨-, htail⟩ := List.cons.inj heq
    have hd' : d ∈ keyText w₁ q₁ k₁ q₁' w₁' ++ (w₁'' ++ q₁'') :=
      mem_of_append_eq_append htail (Nat.lt_of_succ_lt_succ hlt)
    have hmark : d ∈ ['{', '}', ','] ∧ d ∈ ['\\', '"', '{', '}', ',', ':'] ∧
        d ∈ ['{', '}', ',', ':'] := by
      rcases hd with rfl | rfl <;> decide
    rw [List.mem_append, List.mem_append] at hd'
    rcases hd' with hd' | hd' | hd'
    · exact hparts₁.not_mem hmark.1 hd'
    · exact not_mem_of_blank hw₁'' hmark.2.1 hd'
    · exact hq₁''.not_mem hmark.2.2 hd'

lemma mem_findIter_VALUE_CLOSE {m : Str} (hm : Matches STRUCTURAL_VALUE_CLOSE m) (a b : Str) :
    (a.len, m) ∈ STRUCTURAL_VALUE_CLOSE.findIter (a ++ m ++ b) := by
  have hne : ∀ m, Matches STRUCTURAL_VALUE_CLOSE m → m ≠ [] := by
    intro m hm
    obtain ⟨w, -, rfl⟩ := matches_VALUE_CLOSE.mp hm
    exact List.cons_ne_nil _ _
  obtain ⟨a', e, m', b', rfl, heq, hlt, hm', hmem⟩ := exists_covering hne (a := a) (b := b) hm
  obtain ⟨w, hw, rfl⟩ := matches_VALUE_CLOSE.mp hm
  obtain ⟨w₁, hw₁, rfl⟩ := matches_VALUE_CLOSE.mp hm'
  have hbrace : ∀ s : Str, ∀ c ∈ ('}' :: s).head?, isWhitespace c = false := by
    rintro s c ⟨⟩
    rfl
  have heq' : ['\\', '"'] ++ ((w₁ ++ ['}']) ++ b') = e ++ (['\\', '"'] ++ (w ++ ['}'] ++ b)) := heq
  rcases eq_or_exists_of_quote_append .escaped .escaped heq' with ⟨hquote, hrest⟩ | ⟨e, rfl, hrest⟩
  · obtain rfl := OptQuote.escaped.eq_nil_of_append_escaped hquote
    rw [List.append_assoc, List.append_assoc] at hrest
    obtain ⟨rfl, -⟩ := span_unique hw₁ hw (hbrace _) (hbrace _) hrest
    rwa [List.append_nil] at hmem ⊢
  · exfalso
    have hlen : ∀ c ∈ ['"', '\\'], c ∉ w₁ ++ ['}'] := by
      intro c hc
      have hc' : c ∈ ['\\', '"', '{', '}', ',', ':'] ∧ c ≠ '}' := by
        simp only [List.mem_cons, List.not_mem_nil, or_false] at hc
        rcases hc with rfl | rfl <;> decide
      simp [not_mem_of_blank hw₁ hc'.1, hc'.2]
    obtain ⟨e, rfl, -⟩ := exists_of_append_eq_quote (hlen _ (by simp)) (hlen _ (by simp))
      .escaped hrest
    simp only [List.length_append, List.length_cons, List.length_nil] at hlt
    omega

lemma mem_findIter_VALUE_CLOSE_THEN_KEY {m : Str}
    (hm : Matches STRUCTURAL_VALUE_CLOSE_THEN_KEY m) {a : Str} (hcut : Uncut a m) (b : Str) :
    (a.len, m) ∈ STRUCTURAL_VALUE_CLOSE_THEN_KEY.findIter (a ++ m ++ b) := by
  have hne : ∀ m, Matches STRUCTURAL_VALUE_CLOSE_THEN_KEY m → m ≠ [] := by
    intro m hm
    obtain ⟨q₀, w₀, w, q, k, q', w', hq₀, -, -, rfl⟩ := matches_VALUE_CLOSE_THEN_KEY.mp hm
    cases hq₀ <;> exact List.cons_ne_nil _ _
  obtain ⟨a', e, m', b', rfl, heq, hlt, hm', hmem⟩ := exists_covering hne (a := a) (b := b) hm
  obtain ⟨q₀, w₀, w, q, k, q', w', hq₀, hw₀, hparts, rfl⟩ := matches_VALUE_CLOSE_THEN_KEY.mp hm
  obtain ⟨q₁₀, w₁₀, w₁, q₁, k₁, q₁', w₁', hq₁₀, hw₁₀, hparts₁, rfl⟩ :=
    matches_VALUE_CLOSE_THEN_KEY.mp hm'
  have hcomma : ∀ s : Str, ∀ c ∈ (',' :: s).head?, isWhitespace c = false := by
    rintro s c ⟨⟩
    rfl
  have hcolon : ∀ s : Str, ∀ c ∈ (':' :: s).head?, isWhitespace c = false := by
    rintro s c ⟨⟩
    rfl
  rw [List.append_assoc q₁₀, List.append_assoc q₀] at heq
  rcases eq_or_exists_of_quote_append hq₁₀ hq₀ heq with ⟨hquote, hrest⟩ | ⟨e, rfl, hrest⟩
  · -- the match starts where the word does, or else at the backslash in front of it
    have hnil : e = [] := by
      cases hq₀ with
      | escaped => exact hq₁₀.eq_nil_of_append_escaped hquote
      | plain =>
        by_contra he
        obtain ⟨c, hc⟩ := Option.ne_none_iff_exists'.mp (mt List.getLast?_eq_none_iff.mp he)
        obtain ⟨e, rfl⟩ := List.getLast?_eq_some_iff.mp hc
        have hbackslash : c = '\\' := by
          cases hq₁₀ with
          | plain =>
            have hlen := congrArg List.length hquote
            simp at hlen
          | escaped =>
            have hquote' : e ++ [c, '"'] = [] ++ ['\\', '"'] := by simpa using hquote
            obtain ⟨-, hcons⟩ := List.append_inj' hquote' rfl
            exact (List.cons.inj hcons).1
        refine hcut ⟨?_, rfl⟩
        rw [← List.append_assoc, List.getLast?_concat, hbackslash]
    subst hnil
    rw [List.append_nil] at hmem ⊢
    rw [List.nil_append] at hquote
    subst hquote
    rw [List.append_assoc, List.append_assoc] at hrest
    obtain ⟨rfl, hkey⟩ := span_unique hw₁₀ hw₀ (hcomma _) (hcomma _) hrest
    rw [(hparts₁.unique hparts (List.cons.inj hkey).2).1] at hmem
    exact hmem
  · -- no other quote of a match is followed by a comma
    exfalso
    have hhead : ∀ c ∈ ['"', '\\'], c ∉ w₁₀ ++ [','] := by
      intro c hc
      have hc' : c ∈ ['\\', '"', '{', '}', ',', ':'] ∧ c ≠ ',' := by
        simp only [List.mem_cons, List.not_mem_nil, or_false] at hc
        rcases hc with rfl | rfl <;> decide
      simp [not_mem_of_blank hw₁₀ hc'.1, hc'.2]
    have hsplit : (w₁₀ ++ [',']) ++ (keyText w₁ q₁ k₁ q₁' w₁' ++ b') = e ++ (q₀ ++
        (w₀ ++ ',' :: keyText w q k q' w' ++ b)) := by simpa using hrest
    obtain ⟨e, rfl, hkey⟩ := exists_of_append_eq_quote (hhead _ (by simp)) (hhead _ (by simp))
      hq₀ hsplit
    rw [List.append_assoc w₀, List.cons_append] at hkey
    rcases hparts₁.split hq₀ hkey with ⟨-, -, -, hs⟩ | ⟨-, -, -, hs⟩ | ⟨e, rfl, -⟩
    · obtain ⟨c, k', rfl, hc, -⟩ := hparts₁.key
      have hkeyChar : isKeyChar c = true := by simp [isKeyChar, isIdentByte_of_isIdentStart hc]
      cases w₀ with
      | nil =>
        obtain ⟨rfl, -⟩ := List.cons.inj hs
        cases hkeyChar
      | cons d w₀ =>
        obtain ⟨rfl, -⟩ := List.cons.inj hs
        have hspace := hw₀ d List.mem_cons_self
        rw [isWhitespace_of_isKeyChar hkeyChar] at hspace
        cases hspace
    · obtain ⟨-, hs'⟩ := span_unique hw₀ hparts₁.space' (hcomma _) (hcolon _) hs
      cases (List.cons.inj hs').1
    · simp only [List.length_append, List.length_cons, List.length_nil] at hlt
      omega

/-! ### What is collected -/

def structuralMatches (raw : Str) : List (ℕ × Str) :=
  STRUCTURAL_KV_PAIR.findIter raw ++ STRUCTURAL_VALUE_CLOSE_THEN_KEY.findIter raw ++
    STRUCTURAL_VALUE_CLOSE.findIter raw

/-- The offsets of the escaped quotes in matches. -/
def structuralPositions (raw : Str) : List ℕ :=
  (structuralMatches raw).flatMap fun m => quotePositions m.1 m.2.bytes

lemma foldlM_collect_eq (ms : List (ℕ × Str)) (found : List ℕ) :
    ms.foldlM collect found =
      .ok (found ++ ms.flatMap fun m => quotePositions m.1 m.2.bytes) := by
  induction ms generalizing found with
  | nil => simp [pure_eq_ok]
  | cons m ms ih =>
    rw [List.foldlM_cons, collect_eq, ok_bind, ih, List.flatMap_cons, List.append_assoc]

lemma mem_quotePositions_of_drop {pos k : ℕ} {s r : Str} (h : s.drop k = '\\' :: '"' :: r) :
    pos + k ∈ quotePositions pos s := by
  induction pos, s using quotePositions.induct generalizing k with
  | case1 => simp at h
  | case2 pos c =>
    cases k with
    | zero => simp at h
    | succ k => simp at h
  | case3 pos b next s hquote ih =>
    obtain ⟨rfl, rfl⟩ := hquote
    rw [quotePositions, if_pos ⟨rfl, rfl⟩]
    cases k with
    | zero => exact List.mem_cons_self
    | succ k =>
      cases k with
      | zero => cases (List.cons.inj h).1
      | succ k =>
        have hmem := ih h
        rw [Nat.add_assoc, Nat.add_comm 2] at hmem
        exact List.mem_cons_of_mem _ hmem
  | case4 pos b next s hquote ih =>
    rw [quotePositions, if_neg hquote]
    cases k with
    | zero =>
      obtain ⟨rfl, htail⟩ := List.cons.inj h
      exact absurd ⟨rfl, (List.cons.inj htail).1⟩ hquote
    | succ k =>
      have hmem := ih h
      rwa [Nat.add_assoc, Nat.add_comm 1] at hmem

/-- Cuts at the same offset are the same. -/
lemma eq_of_len_eq {front back front' back' : Str} (h : front ++ back = front' ++ back')
    (hlen : front.len = front'.len) : front = front' ∧ back = back' := by
  rcases List.append_eq_append_iff.mp h with ⟨r, rfl, rfl⟩ | ⟨r, rfl, rfl⟩
  · rw [len_append] at hlen
    obtain rfl : r = [] := len_eq_zero (by omega)
    simp
  · rw [len_append] at hlen
    obtain rfl : r = [] := len_eq_zero (by omega)
    simp

lemma isAscii_escapedQuote : ∀ c ∈ ['\\', '"'], isAscii c :=
  List.forall_mem_cons.mpr ⟨by decide, List.forall_mem_singleton.mpr (by decide)⟩

/-- The escaped quotes that are collected are the structural ones. -/
lemma mem_structuralPositions_iff (a b : Str) :
    a.len ∈ structuralPositions (a ++ (['\\', '"'] ++ b)) ↔ Structural (blind a) (blind b) := by
  constructor
  · intro h
    obtain ⟨⟨i, m⟩, hm, hpos⟩ := List.mem_flatMap.mp h
    obtain ⟨k, r, hk, hdrop⟩ := mem_quotePositions hpos
    obtain ⟨f, g, rfl, hf, hg⟩ := exists_cut (by decide) hdrop
    obtain ⟨g, rfl, -⟩ := exists_of_bytes_eq_append (m := ['\\', '"']) isAscii_escapedQuote hg
    -- whichever pattern the match belongs to
    have hsound : ∀ {pat : Pattern}, (i, f ++ (['\\', '"'] ++ g)) ∈
        pat.findIter (a ++ (['\\', '"'] ++ b)) →
        (∀ a b', Matches pat (f ++ (['\\', '"'] ++ g)) →
          Structural (blind (a ++ f)) (blind (g ++ b'))) → Structural (blind a) (blind b) := by
      intro pat hfound hpat
      obtain ⟨a₁, b₁, hraw, hi, hmatches⟩ := mem_findIter hfound
      have hraw' : a ++ (['\\', '"'] ++ b) = (a₁ ++ f) ++ (['\\', '"'] ++ (g ++ b₁)) := by
        simpa using hraw
      have hlen : a.len = (a₁ ++ f).len := by
        rw [len_append, ← hi, hf]
        exact hk
      obtain ⟨rfl, hback⟩ := eq_of_len_eq hraw' hlen
      rw [List.append_cancel_left hback]
      exact hpat a₁ b₁ hmatches
    rcases List.mem_append.mp hm with hm | hm
    · rcases List.mem_append.mp hm with hm | hm
      · exact hsound hm fun _ b' => structural_of_KV_PAIR b'
      · exact hsound hm fun _ b' => structural_of_VALUE_CLOSE_THEN_KEY b'
    · exact hsound hm fun _ b' => structural_of_VALUE_CLOSE b'
  · intro h
    obtain ⟨a', m₁, m₂, b', rfl, rfl, hword, hcut⟩ := exists_word_of_structural h
    have hraw : a' ++ m₁ ++ (['\\', '"'] ++ (m₂ ++ b')) =
        a' ++ (m₁ ++ (['\\', '"'] ++ m₂)) ++ b' := by simp
    have hmem : (a'.len, m₁ ++ (['\\', '"'] ++ m₂)) ∈
        structuralMatches (a' ++ m₁ ++ (['\\', '"'] ++ (m₂ ++ b'))) := by
      rw [hraw, structuralMatches, List.mem_append, List.mem_append]
      rcases hword with hm | hm | hm
      · exact .inl (.inl (mem_findIter_KV_PAIR hm a' b'))
      · exact .inl (.inr (mem_findIter_VALUE_CLOSE_THEN_KEY hm hcut b'))
      · exact .inr (mem_findIter_VALUE_CLOSE hm a' b')
    refine List.mem_flatMap.mpr ⟨_, hmem, ?_⟩
    have hdrop : (bytes (m₁ ++ (['\\', '"'] ++ m₂))).drop m₁.len = '\\' :: '"' :: bytes m₂ := by
      rw [bytes_append, bytes_append, bytes_of_isAscii isAscii_escapedQuote, len, List.drop_left]
      rfl
    rw [len_append]
    exact mem_quotePositions_of_drop hdrop

/-! ### What is left -/

/-- The second text is the first with its structural quotes unescaped. In front of them stands
`front`, with all quotes unescaped. -/
inductive Stripped : Str → Str → Str → Prop where
  | nil {front : Str} : Stripped front [] []
  | structural {front s t : Str} (hquote : Structural front (blind s))
      (h : Stripped (front ++ ['"']) s t) : Stripped front ('\\' :: '"' :: s) ('"' :: t)
  | data {front s t : Str} (hquote : ¬ Structural front (blind s))
      (h : Stripped (front ++ ['"']) s t) : Stripped front ('\\' :: '"' :: s) ('\\' :: '"' :: t)
  | char {front s t : Str} {c : Char} (hc : ¬ (c = '\\' ∧ s.head? = some '"'))
      (h : Stripped (front ++ [c]) s t) : Stripped front (c :: s) (c :: t)

lemma Stripped.unique {front s t t' : Str} (h : Stripped front s t) (h' : Stripped front s t') :
    t = t' := by
  induction h generalizing t' with
  | nil =>
    cases h'
    rfl
  | structural hquote h ih =>
    cases h' with
    | structural _ h' => rw [ih h']
    | data hdata _ => exact absurd hquote hdata
    | char hc _ => exact absurd ⟨rfl, rfl⟩ hc
  | data hdata h ih =>
    cases h' with
    | structural hquote _ => exact absurd hquote hdata
    | data _ h' => rw [ih h']
    | char hc _ => exact absurd ⟨rfl, rfl⟩ hc
  | char hc h ih =>
    cases h' with
    | structural _ _ => exact absurd ⟨rfl, rfl⟩ hc
    | data _ _ => exact absurd ⟨rfl, rfl⟩ hc
    | char _ h' => rw [ih h']

/-- Text without structural quotes stays. -/
lemma Stripped.append {front m s t : Str}
    (hm : ∀ a b, m = a ++ '\\' :: '"' :: b → ¬ Structural (front ++ blind a) (blind (b ++ s)))
    (hs : s.head? ≠ some '"') (h : Stripped (front ++ blind m) s t) :
    Stripped front (m ++ s) (m ++ t) := by
  rcases blind_cases m with rfl | ⟨m', rfl, hblind⟩ | ⟨c, m', rfl, hc, hblind⟩
  · simpa using h
  · refine .data (by simpa using hm [] m' rfl) (Stripped.append ?_ hs ?_)
    · rintro a b rfl
      simpa using hm ('\\' :: '"' :: a) b rfl
    · simpa [hblind] using h
  · refine .char ?_ (Stripped.append ?_ hs ?_)
    · rintro ⟨rfl, hhead⟩
      cases m' with
      | nil => exact hs hhead
      | cons d m' => exact hc ⟨rfl, hhead⟩
    · rintro a b rfl
      have hca : blind (c :: a) = c :: blind a := by
        refine blind_cons ?_
        rintro ⟨rfl, hhead⟩
        obtain ⟨a', rfl⟩ := List.head?_eq_some_iff.mp hhead
        exact hc ⟨rfl, rfl⟩
      simpa [hca] using hm (c :: a) b rfl
    · simpa [hblind] using h
termination_by m.length

lemma Stripped.stay {front m : Str}
    (hm : ∀ a b, m = a ++ '\\' :: '"' :: b → ¬ Structural (front ++ blind a) (blind b)) :
    Stripped front m m := by
  have hnil : Stripped (front ++ blind m) [] [] := .nil
  have happend := Stripped.append (by simpa using hm) (by simp) hnil
  rwa [List.append_nil] at happend

lemma Stripped.append_plain {front m s t : Str} (hm : '\\' ∉ m) (h : Stripped (front ++ m) s t) :
    Stripped front (m ++ s) (m ++ t) := by
  induction m generalizing front with
  | nil => simpa using h
  | cons c m ih =>
    rw [List.mem_cons, not_or] at hm
    exact .char (fun hc => hm.1 hc.1.symm) (ih hm.2 (by simpa using h))

lemma exists_of_quoteAt {raw : Str} {pos : ℕ} (h : QuoteAt raw pos) :
    ∃ a b, raw = a ++ '\\' :: '"' :: b ∧ a.len = pos := by
  obtain ⟨r, hr⟩ := h
  obtain ⟨a, back, hraw, ha, hback⟩ := exists_cut (by decide) hr
  obtain ⟨b, rfl, -⟩ := exists_of_bytes_eq_append (r := r) isAscii_escapedQuote hback
  exact ⟨a, b, hraw, ha⟩

/-- No escaped quote starts inside of another one. -/
lemma add_two_le_of_quoteAt {raw : Str} {pos pos' : ℕ} (h : QuoteAt raw pos) (h' : QuoteAt raw pos')
    (hlt : pos < pos') : pos + 2 ≤ pos' := by
  obtain ⟨r, hr⟩ := h
  obtain ⟨r', hr'⟩ := h'
  by_contra hle
  obtain rfl : pos' = pos + 1 := by omega
  rw [← List.drop_drop, hr] at hr'
  cases hr'

lemma len_append_escaped (a b : Str) : (a ++ '\\' :: '"' :: b).len = a.len + 2 + b.len := by
  have hquote : len ['\\', '"'] = 2 := len_of_isAscii isAscii_escapedQuote
  rw [List.append_cons, List.append_cons, List.append_assoc a, len_append, len_append]
  exact congrArg (a.len + · + b.len) hquote

/-- Unescaping the quotes at the offsets of the structural ones. -/
lemma foldlM_unEscapeAt_stripped {raw front back : Str} {positions : List ℕ}
    (hraw : raw = front ++ back) (hlast : front.getLast? ≠ some '\\')
    (hsorted : positions.Pairwise (· < ·)) (hquotes : ∀ pos ∈ positions, QuoteAt raw pos)
    (hfront : ∀ pos ∈ positions, front.len ≤ pos)
    (hmem : ∀ a b, back = a ++ '\\' :: '"' :: b →
      (front.len + a.len ∈ positions ↔ Structural (blind (front ++ a)) (blind b))) (out : Str) :
    ∃ out' front' rest t, positions.foldlM (unEscapeAt raw) (out, front.len) =
      .ok (out', len front') ∧ raw = front' ++ rest ∧ out' ++ rest = out ++ t ∧
      Stripped (blind front) back t := by
  induction positions generalizing front back out with
  | nil =>
    have hblind : ∀ a, blind (front ++ a) = blind front ++ blind a :=
      fun a => blind_append fun h => hlast h.1
    refine ⟨out, front, back, back, rfl, hraw, rfl, Stripped.stay ?_⟩
    intro a b hback
    rw [← hblind, ← hmem a b hback]
    exact List.not_mem_nil
  | cons pos positions ih =>
    have hblind : ∀ a, blind (front ++ a) = blind front ++ blind a :=
      fun a => blind_append fun h => hlast h.1
    obtain ⟨hquote, hrest⟩ := List.forall_mem_cons.mp hquotes
    obtain ⟨hle, -⟩ := List.forall_mem_cons.mp hfront
    obtain ⟨hbehind, hsorted'⟩ := List.pairwise_cons.mp hsorted
    obtain ⟨front₁, b, hraw₁, rfl⟩ := exists_of_quoteAt hquote
    -- the text up to the quote
    obtain ⟨m, rfl, rfl⟩ : ∃ m, front₁ = front ++ m ∧ back = m ++ '\\' :: '"' :: b := by
      rcases List.append_eq_append_iff.mp (hraw.symm.trans hraw₁) with ⟨m, rfl, hm⟩ | ⟨m, rfl, hm⟩
      · exact ⟨m, rfl, hm⟩
      · rw [len_append] at hle
        obtain rfl : m = [] := len_eq_zero (by omega)
        exact ⟨[], by simp, by simpa using hm.symm⟩
    have hlen : (front ++ m).len + 2 = (front ++ m ++ ['\\', '"']).len := by
      rw [len_append_escaped (front ++ m) [], len_nil, Nat.add_zero]
    have hraw₂ : raw = (front ++ m ++ ['\\', '"']) ++ b := by simpa using hraw₁
    have hslice : slice raw front.len (front ++ m).len = .ok m := by
      rw [hraw₁, len_append]
      exact slice_append front m _
    have hnext : ∀ pos ∈ positions, (front ++ m ++ ['\\', '"']).len ≤ pos := fun pos hpos =>
      hlen ▸ add_two_le_of_quoteAt hquote (hrest pos hpos) (hbehind pos hpos)
    have hmem' : ∀ a b' : Str, b = a ++ '\\' :: '"' :: b' →
        ((front ++ m ++ ['\\', '"']).len + a.len ∈ positions ↔
          Structural (blind (front ++ m ++ ['\\', '"'] ++ a)) (blind b')) := by
      rintro a b' rfl
      have hiff := hmem (m ++ '\\' :: '"' :: a) b' (by simp)
      rw [len_append_escaped, List.mem_cons, or_iff_right (by rw [len_append]; omega)] at hiff
      rw [← hlen, len_append]
      simpa [Nat.add_assoc] using hiff
    obtain ⟨out', front', rest, t, hfold, hraw', hout, hstripped⟩ :=
      ih hraw₂ (by simp) hsorted' hrest hnext hmem' (out ++ m ++ ['"'])
    refine ⟨out', front', rest, m ++ '"' :: t, ?_, hraw', by simp [hout], ?_⟩
    · rw [List.foldlM_cons, unEscapeAt, if_neg (not_lt.mpr hle), hslice, ok_bind, pure_eq_ok,
        ok_bind, hlen]
      exact hfold
    · refine Stripped.append ?_ (by simp) ?_
      · -- no structural quote is in front of the first
        rintro a b' rfl
        rw [← hblind, ← hmem a (b' ++ '\\' :: '"' :: b) (by simp)]
        have hlt : front.len + a.len + 2 ≤ (front ++ (a ++ '\\' :: '"' :: b')).len := by
          rw [len_append, len_append_escaped]
          omega
        intro hpos
        rcases List.mem_cons.mp hpos with hpos | hpos
        · omega
        · have := hbehind _ hpos
          omega
      · rw [← hblind]
        refine .structural ?_ ?_
        · rw [← hmem m b rfl, ← len_append]
          exact List.mem_cons_self
        · have hquote' := blind_append_escaped (front ++ m) []
          rw [blind_nil] at hquote'
          rwa [hquote'] at hstripped

lemma sortedPositions (positions : List ℕ) :
    ((positions.insertionSort (· ≤ ·)).destutter (· ≠ ·)).Pairwise (· < ·) ∧
      ∀ pos, pos ∈ (positions.insertionSort (· ≤ ·)).destutter (· ≠ ·) ↔ pos ∈ positions := by
  have hsorted := List.pairwise_insertionSort (· ≤ ·) positions
  rw [hsorted.destutter_eq_dedup]
  refine ⟨?_, fun pos => by simp⟩
  have hle := hsorted.sublist (List.dedup_sublist _)
  exact (hle.and (List.nodup_dedup _)).imp fun h => lt_of_le_of_ne h.1 h.2

lemma quoteAt_of_mem_structuralPositions {raw : Str} {pos : ℕ} (h : pos ∈ structuralPositions raw) :
    QuoteAt raw pos := by
  obtain ⟨⟨i, m⟩, hm, hpos⟩ := List.mem_flatMap.mp h
  simp only [structuralMatches, List.mem_append] at hm
  rcases hm with (hm | hm) | hm
  all_goals
    obtain ⟨a, b, hraw, rfl, -⟩ := Pattern.mem_findIter hm
    exact quoteAt_of_mem_quotePositions hraw hpos

lemma unEscapeStructuralQuotes_eq {raw : Str} (h : contains raw ['\\', '"'] = true) :
    unEscapeStructuralQuotes raw =
      if structuralPositions raw = [] then return none
      else do
        let (out, cursor) ← (((structuralPositions raw).insertionSort (· ≤ ·)).destutter
          (· ≠ ·)).foldlM (unEscapeAt raw) ([], 0)
        let rest ← sliceFrom raw cursor
        if out ++ rest = raw then return none else return some (out ++ rest) := by
  rw [unEscapeStructuralQuotes, if_neg (not_not_intro h), foldlM_collect_eq, ok_bind]
  rfl

/-- Unescaping a text unescapes its structural quotes. -/
theorem unEscapeStructuralQuotes_stripped (raw : Str) :
    ∃ rewritten, unEscapeStructuralQuotes raw = .ok rewritten ∧
      Stripped [] raw (rewritten.getD raw) := by
  by_cases hcontains : contains raw ['\\', '"'] = true
  · by_cases hnil : structuralPositions raw = []
    · refine ⟨none, ?_, Stripped.stay ?_⟩
      · rw [unEscapeStructuralQuotes_eq hcontains, if_pos hnil]
        rfl
      · rintro a b rfl hstructural
        have hmem := (mem_structuralPositions_iff a b).mpr hstructural
        rw [List.cons_append, List.singleton_append, hnil] at hmem
        cases hmem
    · obtain ⟨hsorted, hmem⟩ := sortedPositions (structuralPositions raw)
      have hquotes := fun pos hpos => quoteAt_of_mem_structuralPositions ((hmem pos).mp hpos)
      have hstructural : ∀ a b, raw = a ++ '\\' :: '"' :: b →
          (len [] + a.len ∈ ((structuralPositions raw).insertionSort (· ≤ ·)).destutter (· ≠ ·) ↔
            Structural (blind ([] ++ a)) (blind b)) := by
        rintro a b rfl
        rw [hmem, len_nil, Nat.zero_add]
        exact mem_structuralPositions_iff a b
      obtain ⟨out, front, rest, t, hfold, hraw, hout, hstripped⟩ :=
        foldlM_unEscapeAt_stripped (List.nil_append raw).symm (by simp) hsorted hquotes
          (fun pos _ => Nat.zero_le pos) hstructural []
      have hrest : sliceFrom raw front.len = .ok rest := by rw [hraw, sliceFrom_append]
      rw [List.nil_append] at hout
      rw [len_nil] at hfold
      rw [unEscapeStructuralQuotes_eq hcontains, if_neg hnil]
      simp only [hfold, ok_bind, hrest, pure_eq_ok, hout]
      split_ifs with heq
      · exact ⟨none, rfl, by rwa [heq] at hstripped⟩
      · exact ⟨_, rfl, hstripped⟩
  · refine ⟨none, if_pos hcontains, Stripped.stay ?_⟩
    rintro a b rfl
    rw [Bool.not_eq_true, contains_eq_false] at hcontains
    exact absurd ⟨a, b, by simp⟩ hcontains

end ModelApi.Gemma
