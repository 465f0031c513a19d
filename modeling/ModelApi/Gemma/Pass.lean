import ModelApi.Gemma.StrictJson

/-!
# Rewriting renderings

A pass rewrites a text from left to right. Where it treats the tokens of a rendering well, it turns
a rendering of a value, in one style, into a rendering of the same value in another one.
-/

namespace ModelApi.Gemma

open Lib Lib.Str

variable {N : Type} {number : Str → Option N} {n : ℕ} {style style' : Style} {same : Prop}

/-! ### Tokens -/

/-- The punctuation between strings, numbers and literals. -/
def marks : List Char := ['[', ']', '{', '}', ',', ':']

/-- A key may stand behind these. -/
def opensKey (c : Char) : Bool := c = '{' || c = ','

inductive IsScalar : Str → Prop where
  | null : IsScalar "null".toList
  | true : IsScalar "true".toList
  | false : IsScalar "false".toList
  | number {lit : Str} (h : isNumberLiteral lit = true) : IsScalar lit

/-- What can follow a value. -/
def Ends (rest : Str) : Prop := ∀ c ∈ (skipSpace rest).head?, c = ',' ∨ c = ']' ∨ c = '}'

lemma ends_of_space {w : Str} (hw : Space w) : Ends w := by
  rw [Ends, skipSpace_eq_nil.mpr hw]
  nofun

lemma ends_cons {c : Char} (hc : c = ',' ∨ c = ']' ∨ c = '}') (s : Str) : Ends (c :: s) := by
  have hspace : isJsonSpace c = false := by
    rcases hc with rfl | rfl | rfl <;> decide
  rw [Ends, show skipSpace (c :: s) = c :: s from skipSpace_cons space_nil hspace]
  rintro d ⟨⟩
  exact hc

lemma Ends.space_append {w rest : Str} (h : Ends rest) (hw : Space w) : Ends (w ++ rest) := by
  rwa [Ends, skipSpace, List.dropWhile_append_of_pos hw]

lemma Ends.head {rest : Str} (h : Ends rest) :
    ∀ c ∈ rest.head?, isJsonSpace c = true ∨ c = ',' ∨ c = ']' ∨ c = '}' := by
  obtain ⟨w, hw, hrest⟩ := exists_skipSpace rest
  cases hskip : skipSpace rest with
  | nil =>
    rw [hskip, List.append_nil] at hrest
    subst hrest
    exact fun c hc => .inl (hw c (List.mem_of_mem_head? hc))
  | cons d s =>
    have hd := h d (by rw [hskip]; rfl)
    rw [hskip] at hrest
    subst hrest
    intro c hc
    rcases head_of_space hw c hc with hspace | rfl
    · exact .inl hspace
    · exact .inr hd

lemma Ends.head_ne {rest : Str} (h : Ends rest) : rest.head? ≠ some '|' := by
  intro hhead
  rcases h.head '|' hhead with h | h | h | h <;> cases h

/-! ### Passes -/

/-- A rewriting of texts that turns what the style allows into what the other style allows. Its
state tells whether a key may stand next. Where `same` holds, it changes nothing. -/
structure Pass (style style' : Style) (same : Prop) where
  run : Bool → Str → Str
  nil : ∀ prev, run prev [] = []
  space : ∀ prev c s, isJsonSpace c = true → run prev (c :: s) = c :: run prev s
  mark : ∀ prev c s, c ∈ marks → run prev (c :: s) = c :: run (opensKey c) s
  scalar : ∀ t, IsScalar t → ∀ prev rest, Ends rest → run prev (t ++ rest) = t ++ run false rest
  string : ∀ t s, StringLit style t s → ∃ t', StringLit style' t' s ∧ (same → t' = t) ∧
    ∀ prev rest, rest.head? ≠ some '|' → run prev (t ++ rest) = t' ++ run false rest
  bare : style.bareKeys = true → ∀ k w sep, IsIdent k → style.content k → Space w →
    (sep = ':' ∨ sep = '=' ∧ style.equals = true) → ∃ t', KeySep style' t' k ∧
      (same → t' = k ++ w ++ [sep]) ∧
      ∀ rest, run true (k ++ w ++ [sep] ++ rest) = t' ++ run false rest

namespace Pass

variable (p : Pass style style' same)

lemma run_space {w : Str} (hw : Space w) (prev : Bool) (s : Str) :
    p.run prev (w ++ s) = w ++ p.run prev s := by
  induction w with
  | nil => rfl
  | cons c w ih =>
    obtain ⟨hc, hw⟩ := List.forall_mem_cons.mp hw
    rw [List.cons_append, p.space _ _ _ hc, ih hw]
    rfl

lemma run_keySep {t k : Str} (h : KeySep style t k) : ∃ t', KeySep style' t' k ∧ (same → t' = t) ∧
    ∀ rest, p.run true (t ++ rest) = t' ++ p.run false rest := by
  cases h with
  | @quoted t w _ h hw =>
    obtain ⟨t', ht', hsame, hrun⟩ := p.string _ _ h
    refine ⟨t' ++ w ++ [':'], .quoted ht' hw, ?_, ?_⟩
    · intro hs
      rw [hsame hs]
    · intro rest
      have hhead : (w ++ ':' :: rest).head? ≠ some '|' := by
        intro hhead
        rcases head_of_space hw '|' hhead with h | h <;> cases h
      have hcolon : p.run false (':' :: rest) = ':' :: p.run false rest :=
        p.mark _ _ _ (by decide)
      simp only [List.append_assoc, List.singleton_append]
      rw [hrun _ _ hhead, p.run_space hw, hcolon]
  | bare hstyle hk hs hw => exact p.bare hstyle _ _ _ hk hs hw (.inl rfl)
  | equals hbare hequals hk hs hw => exact p.bare hbare _ _ _ hk hs hw (.inr ⟨rfl, hequals⟩)

/-- Keys stand only where the state says so. -/
def Entry : Node N → Bool → Prop
  | .members _, prev => prev = true
  | .value _, _      => True
  | .elements _, _   => True

/-- A pass turns a rendering into a rendering of the same node. -/
lemma renders {t : Str} {node : Node N} (h : Renders style number n t node) :
    ∃ t', Renders style' number n t' node ∧ (same → t' = t) ∧
      ∀ prev rest, Entry node prev → Ends rest →
        p.run prev (t ++ rest) = t' ++ p.run false rest := by
  induction h with
  | null => exact ⟨_, .null, fun _ => rfl, fun prev rest _ => p.scalar _ .null prev rest⟩
  | true => exact ⟨_, .true, fun _ => rfl, fun prev rest _ => p.scalar _ .true prev rest⟩
  | false => exact ⟨_, .false, fun _ => rfl, fun prev rest _ => p.scalar _ .false prev rest⟩
  | number hlit hx =>
    exact ⟨_, .number hlit hx, fun _ => rfl, fun prev rest _ => p.scalar _ (.number hlit) prev rest⟩
  | string h =>
    obtain ⟨t', ht', hsame, hrun⟩ := p.string _ _ h
    exact ⟨t', .string ht', hsame, fun prev rest _ hrest => hrun prev rest hrest.head_ne⟩
  | @emptyArray n w hw =>
    refine ⟨_, .emptyArray hw, fun _ => rfl, ?_⟩
    intro prev rest _ _
    rw [List.cons_append, List.append_assoc, p.mark _ _ _ (by decide), p.run_space hw]
    simp [p.mark _ _ _ (by decide : ']' ∈ marks), opensKey]
  | @array n t vs h ih =>
    obtain ⟨t', ht', hsame, hrun⟩ := ih
    refine ⟨'[' :: (t' ++ [']']), .array ht', ?_, ?_⟩
    · intro hs
      rw [hsame hs]
    · intro prev rest _ _
      have hends : Ends (']' :: rest) := ends_cons (by simp) rest
      rw [List.cons_append, List.append_assoc, p.mark _ _ _ (by decide), List.singleton_append,
        hrun _ _ trivial hends]
      simp [p.mark _ _ _ (by decide : ']' ∈ marks), opensKey]
  | @emptyObject n w hw =>
    refine ⟨_, .emptyObject hw, fun _ => rfl, ?_⟩
    intro prev rest _ _
    rw [List.cons_append, List.append_assoc, p.mark _ _ _ (by decide), p.run_space hw]
    simp [p.mark _ _ _ (by decide : '}' ∈ marks), opensKey]
  | @object n t ms h ih =>
    obtain ⟨t', ht', hsame, hrun⟩ := ih
    refine ⟨'{' :: (t' ++ ['}']), .object ht', ?_, ?_⟩
    · intro hs
      rw [hsame hs]
    · intro prev rest _ _
      have hends : Ends ('}' :: rest) := ends_cons (by simp) rest
      rw [List.cons_append, List.append_assoc, p.mark _ _ _ (by decide), List.singleton_append,
        hrun (opensKey '{') _ rfl hends]
      simp [p.mark _ _ _ (by decide : '}' ∈ marks), opensKey]
  | @element n w t w' v hw h hw' ih =>
    obtain ⟨t', ht', hsame, hrun⟩ := ih
    refine ⟨w ++ (t' ++ w'), .element hw ht' hw', ?_, ?_⟩
    · intro hs
      rw [hsame hs]
    · intro prev rest _ hrest
      simp only [List.append_assoc]
      rw [p.run_space hw, hrun _ _ trivial (hrest.space_append hw'), p.run_space hw']
  | @elements n w t w' ts v vs hw h hw' hs ih ihs =>
    obtain ⟨t', ht', hsame, hrun⟩ := ih
    obtain ⟨ts', hts', hsame', hrun'⟩ := ihs
    refine ⟨w ++ (t' ++ (w' ++ ',' :: ts')), .elements hw ht' hw' hts', ?_, ?_⟩
    · intro hs
      rw [hsame hs, hsame' hs]
    · intro prev rest _ hrest
      have hends : Ends (',' :: (ts ++ rest)) := ends_cons (by simp) _
      simp only [List.append_assoc, List.cons_append]
      rw [p.run_space hw, hrun _ _ trivial (hends.space_append hw'), p.run_space hw',
        p.mark _ _ _ (by decide), hrun' _ _ trivial hrest]
  | @member n w key k w' t w'' v hw hkey hw' h hw'' ih =>
    obtain ⟨key', hkey', hsameKey, hrunKey⟩ := p.run_keySep hkey
    obtain ⟨t', ht', hsame, hrun⟩ := ih
    refine ⟨w ++ (key' ++ (w' ++ (t' ++ w''))), .member hw hkey' hw' ht' hw'', ?_, ?_⟩
    · intro hs
      rw [hsameKey hs, hsame hs]
    · rintro prev rest rfl hrest
      simp only [List.append_assoc]
      rw [p.run_space hw, hrunKey, p.run_space hw', hrun _ _ trivial (hrest.space_append hw''),
        p.run_space hw'']
  | @members n w key k w' t w'' ts v ms hw hkey hw' h hw'' hs ih ihs =>
    obtain ⟨key', hkey', hsameKey, hrunKey⟩ := p.run_keySep hkey
    obtain ⟨t', ht', hsame, hrun⟩ := ih
    obtain ⟨ts', hts', hsame', hrun'⟩ := ihs
    refine ⟨w ++ (key' ++ (w' ++ (t' ++ (w'' ++ ',' :: ts')))),
      .members hw hkey' hw' ht' hw'' hts', ?_, ?_⟩
    · intro hs
      rw [hsameKey hs, hsame hs, hsame' hs]
    · rintro prev rest rfl hrest
      have hends : Ends (',' :: (ts ++ rest)) := ends_cons (by simp) _
      simp only [List.append_assoc, List.cons_append]
      rw [p.run_space hw, hrunKey, p.run_space hw', hrun _ _ trivial (hends.space_append hw''),
        p.run_space hw'', p.mark _ _ _ (by decide), hrun' (opensKey ',') _ rfl hrest]

/-- A pass over a whole text. -/
lemma rendering {s : Str} {v : Value N} (h : Rendering style number s v) :
    Rendering style' number (p.run false s) v ∧ (same → p.run false s = s) := by
  obtain ⟨w, t, w', hw, ht, hw', rfl⟩ := h
  obtain ⟨t', ht', hsame, hrun⟩ := p.renders ht
  have hrun' : p.run false (w ++ (t ++ w')) = w ++ (t' ++ w') := by
    have hend := p.run_space hw' false []
    rw [List.append_nil, p.nil, List.append_nil] at hend
    rw [p.run_space hw, hrun _ _ trivial (ends_of_space hw'), hend]
  rw [hrun']
  refine ⟨⟨w, t', w', hw, ht', hw', rfl⟩, ?_⟩
  intro hs
  rw [hsame hs]

end Pass
end ModelApi.Gemma
