import ModelApi.Gemma.Scan

/-!
# Structural quotes

Which escaped quotes the three patterns for structural quotes take for structural. Whether a quote
in the text around them is escaped makes no difference, so that this is said of the text with all
quotes unescaped.
-/

namespace ModelApi.Gemma

open Lib Lib.Str

/-! ### Words -/

/-- `\\?"` -/
inductive OptQuote : Str → Prop where
  | plain : OptQuote ['"']
  | escaped : OptQuote ['\\', '"']

/-- `[A-Za-z_][A-Za-z0-9_.\-]{0,30}` -/
def IsKey (k : Str) : Prop :=
  ∃ c k', k = c :: k' ∧ isIdentStart c = true ∧ k'.length ≤ 30 ∧ ∀ d ∈ k', isKeyChar d = true

/-- The parts of `\s*\\?"KEY\\?"\s*:`. -/
structure KeyParts (w q k q' w' : Str) : Prop where
  space : Blank w
  opens : OptQuote q
  key : IsKey k
  closes : OptQuote q'
  space' : Blank w'

def keyText (w q k q' w' : Str) : Str := w ++ (q ++ (k ++ (q' ++ (w' ++ [':']))))

lemma IsKey.forall {k : Str} (h : IsKey k) : ∀ c ∈ k, isKeyChar c = true := by
  obtain ⟨c, k', rfl, hc, -, hk'⟩ := h
  refine List.forall_mem_cons.mpr ⟨?_, hk'⟩
  simp [isKeyChar, isIdentByte_of_isIdentStart hc]

lemma isKeyChar_eq_false {c : Char} (h : c ∈ ['\\', '"', '{', '}', ',', ':']) :
    isKeyChar c = false := by
  simp only [List.mem_cons, List.not_mem_nil, or_false] at h
  rcases h with rfl | rfl | rfl | rfl | rfl | rfl <;> rfl

lemma isWhitespace_eq_false {c : Char} (h : c ∈ ['\\', '"', '{', '}', ',', ':']) :
    isWhitespace c = false := by
  simp only [List.mem_cons, List.not_mem_nil, or_false] at h
  rcases h with rfl | rfl | rfl | rfl | rfl | rfl <;> rfl

lemma isWhitespace_of_isKeyChar {c : Char} (h : isKeyChar c = true) : isWhitespace c = false := by
  simp only [isKeyChar, Bool.or_eq_true, beq_iff_eq] at h
  rcases h with (h | rfl) | rfl
  · exact isWhitespace_of_isIdentByte h
  · rfl
  · rfl

lemma not_mem_of_blank {w : Str} (hw : Blank w) {c : Char}
    (hc : c ∈ ['\\', '"', '{', '}', ',', ':']) : c ∉ w := by
  intro hmem
  have := hw c hmem
  rw [isWhitespace_eq_false hc] at this
  cases this

lemma IsKey.not_mem {k : Str} (h : IsKey k) {c : Char} (hc : c ∈ ['\\', '"', '{', '}', ',', ':']) :
    c ∉ k := by
  intro hmem
  have := h.forall c hmem
  rw [isKeyChar_eq_false hc] at this
  cases this

lemma OptQuote.not_mem {q : Str} (h : OptQuote q) {c : Char} (hc : c ∈ ['{', '}', ',', ':']) :
    c ∉ q := by
  simp only [List.mem_cons, List.not_mem_nil, or_false] at hc
  cases h <;> rcases hc with rfl | rfl | rfl | rfl <;> decide

lemma KeyParts.not_mem {w q k q' w' : Str} (h : KeyParts w q k q' w') {c : Char}
    (hc : c ∈ ['{', '}', ',']) : c ∉ keyText w q k q' w' := by
  have hall : c ∈ ['\\', '"', '{', '}', ',', ':'] := by
    simp only [List.mem_cons, List.not_mem_nil, or_false] at hc ⊢
    tauto
  have hfour : c ∈ ['{', '}', ',', ':'] := by
    simp only [List.mem_cons, List.not_mem_nil, or_false] at hc ⊢
    tauto
  have hcolon : c ≠ ':' := by
    rintro rfl
    exact absurd hc (by simp)
  simp [keyText, not_mem_of_blank h.space hall, h.opens.not_mem hfour, h.key.not_mem hall,
    h.closes.not_mem hfour, not_mem_of_blank h.space' hall, hcolon]

/-! ### The words match -/

section Matches

open Pattern

variable {items : Pattern} {m : Str}

lemma matches_space {p : Char → Bool} :
    Matches (.many p :: items) m ↔
      ∃ w m', m = w ++ m' ∧ (∀ c ∈ w, p c = true) ∧ Matches items m' := by
  constructor
  · intro h
    cases h with
    | many hw h => exact ⟨_, _, rfl, hw, h⟩
  · rintro ⟨w, m', rfl, hw, h⟩
    exact .many hw h

lemma matches_one {p : Char → Bool} :
    Matches (.one p :: items) m ↔ ∃ c m', m = c :: m' ∧ p c = true ∧ Matches items m' := by
  constructor
  · intro h
    cases h with
    | one hc h => exact ⟨_, _, rfl, hc, h⟩
  · rintro ⟨c, m', rfl, hc, h⟩
    exact .one hc h

lemma matches_quote :
    Matches (quoteItems ++ items) m ↔ ∃ q m', m = q ++ m' ∧ OptQuote q ∧ Matches items m' := by
  constructor
  · intro h
    change Matches (.opt (· == '\\') :: .one (· == '"') :: items) m at h
    cases h with
    | optNone h =>
      obtain ⟨c, m', rfl, hc, hm'⟩ := matches_one.mp h
      obtain rfl := beq_iff_eq.mp hc
      exact ⟨_, m', rfl, .plain, hm'⟩
    | optSome hc h =>
      obtain ⟨d, m', rfl, hd, hm'⟩ := matches_one.mp h
      obtain rfl := beq_iff_eq.mp hc
      obtain rfl := beq_iff_eq.mp hd
      exact ⟨_, m', rfl, .escaped, hm'⟩
  · rintro ⟨q, m', rfl, hq, h⟩
    cases hq with
    | plain => exact .optNone (.one rfl h)
    | escaped => exact .optSome rfl (.one rfl h)

lemma matches_key :
    Matches (keyItems ++ items) m ↔ ∃ k m', m = k ++ m' ∧ IsKey k ∧ Matches items m' := by
  constructor
  · intro h
    obtain ⟨c, m', rfl, hc, hm'⟩ := matches_one.mp h
    cases hm' with
    | upTo hlen hw hm' => exact ⟨_, _, rfl, ⟨c, _, rfl, hc, hlen, hw⟩, hm'⟩
  · rintro ⟨_, m', rfl, ⟨c, k', rfl, hc, hlen, hk'⟩, h⟩
    exact .one hc (.upTo hlen hk' h)

lemma matches_keyText :
    Matches (.many isWhitespace :: (quoteItems ++ (keyItems ++ (quoteItems ++
      (.many isWhitespace :: .one (· == ':') :: items))))) m ↔
      ∃ w q k q' w' m', KeyParts w q k q' w' ∧ m = keyText w q k q' w' ++ m' ∧
        Matches items m' := by
  simp only [matches_space, matches_quote, matches_key, matches_one]
  constructor
  · rintro ⟨w, _, rfl, hw, q, _, rfl, hq, k, _, rfl, hk, q', _, rfl, hq', w', _, rfl, hw', c, m',
      rfl, hc, h⟩
    obtain rfl := beq_iff_eq.mp hc
    exact ⟨w, q, k, q', w', m', ⟨hw, hq, hk, hq', hw'⟩, by simp [keyText], h⟩
  · rintro ⟨w, q, k, q', w', m', h, rfl, hm'⟩
    exact ⟨w, _, by simp [keyText], h.space, q, _, rfl, h.opens, k, _, rfl, h.key, q', _, rfl,
      h.closes, w', _, rfl, h.space', ':', m', rfl, rfl, hm'⟩

lemma matches_KV_PAIR :
    Matches STRUCTURAL_KV_PAIR m ↔ ∃ d w q k q' w' w'' q'', (d = '{' ∨ d = ',') ∧
      KeyParts w q k q' w' ∧ Blank w'' ∧ OptQuote q'' ∧
      m = d :: (keyText w q k q' w' ++ (w'' ++ q'')) := by
  change Matches (.one (fun c => c == '{' || c == ',') :: .many isWhitespace :: (quoteItems ++
    (keyItems ++ (quoteItems ++ (.many isWhitespace :: .one (· == ':') :: .many isWhitespace ::
      (quoteItems ++ [])))))) m ↔ _
  constructor
  · intro h
    obtain ⟨d, _, rfl, hd, h₁⟩ := matches_one.mp h
    obtain ⟨w, q, k, q', w', _, hparts, rfl, h₂⟩ := matches_keyText.mp h₁
    obtain ⟨w'', _, rfl, hw'', h₃⟩ := matches_space.mp h₂
    obtain ⟨q'', _, rfl, hq'', h₄⟩ := matches_quote.mp h₃
    cases h₄
    exact ⟨d, w, q, k, q', w', w'', q'', by simpa using hd, hparts, hw'', hq'', by simp⟩
  · rintro ⟨d, w, q, k, q', w', w'', q'', hd, hparts, hw'', hq'', rfl⟩
    have hlast := matches_quote.mpr ⟨q'', [], (List.append_nil q'').symm, hq'', .nil⟩
    have hvalue := matches_space.mpr ⟨w'', q'', rfl, hw'', hlast⟩
    have hkey := matches_keyText.mpr ⟨w, q, k, q', w', _, hparts, rfl, hvalue⟩
    exact matches_one.mpr ⟨d, _, rfl, by simpa using hd, hkey⟩

lemma matches_VALUE_CLOSE_THEN_KEY :
    Matches STRUCTURAL_VALUE_CLOSE_THEN_KEY m ↔ ∃ q₀ w₀ w q k q' w', OptQuote q₀ ∧ Blank w₀ ∧
      KeyParts w q k q' w' ∧ m = q₀ ++ (w₀ ++ ',' :: keyText w q k q' w') := by
  change Matches (quoteItems ++ (.many isWhitespace :: .one (· == ',') :: .many isWhitespace ::
    (quoteItems ++ (keyItems ++ (quoteItems ++ (.many isWhitespace :: .one (· == ':') :: [])))))) m
    ↔ _
  constructor
  · intro h
    obtain ⟨q₀, _, rfl, hq₀, h₁⟩ := matches_quote.mp h
    obtain ⟨w₀, _, rfl, hw₀, h₂⟩ := matches_space.mp h₁
    obtain ⟨c, _, rfl, hc, h₃⟩ := matches_one.mp h₂
    obtain ⟨w, q, k, q', w', _, hparts, rfl, h₄⟩ := matches_keyText.mp h₃
    cases h₄
    obtain rfl := beq_iff_eq.mp hc
    exact ⟨q₀, w₀, w, q, k, q', w', hq₀, hw₀, hparts, by simp⟩
  · rintro ⟨q₀, w₀, w, q, k, q', w', hq₀, hw₀, hparts, rfl⟩
    have hkey := matches_keyText.mpr ⟨w, q, k, q', w', [], hparts, (List.append_nil _).symm, .nil⟩
    have hcomma := Matches.one (p := fun c => c == ',') (c := ',') rfl hkey
    exact matches_quote.mpr ⟨q₀, _, rfl, hq₀, matches_space.mpr ⟨w₀, _, rfl, hw₀, hcomma⟩⟩

lemma matches_VALUE_CLOSE :
    Matches STRUCTURAL_VALUE_CLOSE m ↔ ∃ w, Blank w ∧ m = '\\' :: '"' :: (w ++ ['}']) := by
  change Matches (.one (· == '\\') :: .one (· == '"') :: .many isWhitespace ::
    .one (· == '}') :: []) m ↔ _
  constructor
  · intro h
    obtain ⟨c, _, rfl, hc, h₁⟩ := matches_one.mp h
    obtain ⟨d, _, rfl, hd, h₂⟩ := matches_one.mp h₁
    obtain ⟨w, _, rfl, hw, h₃⟩ := matches_space.mp h₂
    obtain ⟨e, _, rfl, he, h₄⟩ := matches_one.mp h₃
    cases h₄
    obtain rfl := beq_iff_eq.mp hc
    obtain rfl := beq_iff_eq.mp hd
    obtain rfl := beq_iff_eq.mp he
    exact ⟨w, hw, rfl⟩
  · rintro ⟨w, hw, rfl⟩
    exact .one rfl (.one rfl (.many hw (.one rfl .nil)))

end Matches

/-! ### Texts with all quotes unescaped -/

/-- The text with all quotes unescaped. -/
def blind : Str → Str
  | []             => []
  | [c]            => [c]
  | c :: c' :: s   => if c = '\\' ∧ c' = '"' then '"' :: blind s else c :: blind (c' :: s)

@[simp] lemma blind_nil : blind [] = [] := by rw [blind]

@[simp] lemma blind_escaped (s : Str) : blind ('\\' :: '"' :: s) = '"' :: blind s := by
  rw [blind, if_pos ⟨rfl, rfl⟩]

lemma blind_cons {c : Char} {s : Str} (h : ¬ (c = '\\' ∧ s.head? = some '"')) :
    blind (c :: s) = c :: blind s := by
  cases s with
  | nil => rfl
  | cons d s =>
    rw [blind, if_neg]
    simpa using h

lemma blind_cons_of_ne {c : Char} (hc : c ≠ '\\') (s : Str) : blind (c :: s) = c :: blind s :=
  blind_cons fun h => hc h.1

/-- A quote and its backslash stand together, or any other character stands alone. -/
lemma blind_cases (s : Str) :
    s = [] ∨ (∃ s', s = '\\' :: '"' :: s' ∧ blind s = '"' :: blind s') ∨
      ∃ c s', s = c :: s' ∧ ¬ (c = '\\' ∧ s'.head? = some '"') ∧ blind s = c :: blind s' := by
  cases s with
  | nil => exact .inl rfl
  | cons c s =>
    by_cases h : c = '\\' ∧ s.head? = some '"'
    · obtain ⟨rfl, hs⟩ := h
      obtain ⟨s', rfl⟩ := List.head?_eq_some_iff.mp hs
      exact .inr (.inl ⟨s', rfl, blind_escaped s'⟩)
    · exact .inr (.inr ⟨c, s, rfl, h, blind_cons h⟩)

/-- The text may be cut anywhere but between a quote and its backslash. -/
lemma blind_append {a s : Str} (h : ¬ (a.getLast? = some '\\' ∧ s.head? = some '"')) :
    blind (a ++ s) = blind a ++ blind s := by
  rcases blind_cases a with rfl | ⟨a', rfl, ha⟩ | ⟨c, a', rfl, hc, ha⟩
  · rfl
  · have h' : ¬ (a'.getLast? = some '\\' ∧ s.head? = some '"') := by
      rintro ⟨hlast, hhead⟩
      exact h ⟨by simp [List.getLast?_cons, hlast], hhead⟩
    rw [ha, List.cons_append, List.cons_append, blind_escaped, blind_append h', List.cons_append]
  · have h' : ¬ (a'.getLast? = some '\\' ∧ s.head? = some '"') := by
      rintro ⟨hlast, hhead⟩
      exact h ⟨by simp [List.getLast?_cons, hlast], hhead⟩
    have hc' : ¬ (c = '\\' ∧ (a' ++ s).head? = some '"') := by
      rintro ⟨rfl, hhead⟩
      cases a' with
      | nil => exact h ⟨rfl, hhead⟩
      | cons d a' => exact hc ⟨rfl, hhead⟩
    rw [ha, List.cons_append, blind_cons hc', blind_append h', List.cons_append]
termination_by a.length

lemma blind_append_cons {c : Char} (hc : c ≠ '"') (a s : Str) :
    blind (a ++ c :: s) = blind a ++ blind (c :: s) :=
  blind_append fun h => hc (Option.some.inj h.2)

lemma blind_append_escaped (a s : Str) :
    blind (a ++ '\\' :: '"' :: s) = blind a ++ '"' :: blind s := by
  rw [blind_append_cons (by simp), blind_escaped]

lemma blind_append_of_not_mem {w : Str} (hw : '\\' ∉ w) (s : Str) :
    blind (w ++ s) = w ++ blind s := by
  induction w with
  | nil => rfl
  | cons c w ih =>
    rw [List.mem_cons, not_or] at hw
    rw [List.cons_append, blind_cons_of_ne (fun h => hw.1 h.symm), ih hw.2, List.cons_append]

lemma blind_of_not_mem {w : Str} (hw : '\\' ∉ w) : blind w = w := by
  have := blind_append_of_not_mem hw []
  rwa [List.append_nil, blind_nil, List.append_nil] at this

lemma OptQuote.blind_append {q : Str} (hq : OptQuote q) (s : Str) :
    blind (q ++ s) = '"' :: blind s := by
  cases hq with
  | plain => exact blind_cons_of_ne (by simp) s
  | escaped => exact blind_escaped s

/-- Behind a quote the text may be cut. -/
lemma exists_blind_quote {q : Str} (hq : OptQuote q) (a s : Str) :
    ∃ l, blind (a ++ (q ++ s)) = l ++ '"' :: blind s := by
  have hplain : ∀ a, a.getLast? ≠ some '\\' →
      blind (a ++ '"' :: s) = blind a ++ '"' :: blind s := by
    intro a ha
    rw [ModelApi.Gemma.blind_append fun h => ha h.1, blind_cons_of_ne (by simp)]
  cases hq with
  | escaped => exact ⟨blind a, blind_append_escaped a s⟩
  | plain =>
    by_cases ha : a.getLast? = some '\\'
    · obtain ⟨a', rfl⟩ := List.getLast?_eq_some_iff.mp ha
      rw [List.append_assoc]
      exact ⟨blind a', blind_append_escaped a' s⟩
    · exact ⟨blind a, hplain a ha⟩

/-! ### Cutting back -/

/-- A cut of the text with its quotes unescaped is a cut of the text. -/
lemma exists_of_blind_eq_append {s u v : Str} (h : blind s = u ++ v) :
    ∃ a b, s = a ++ b ∧ blind a = u ∧ blind b = v ∧
      ¬ (a.getLast? = some '\\' ∧ b.head? = some '"') := by
  rcases blind_cases s with rfl | ⟨s', rfl, hs⟩ | ⟨c, s', rfl, hc, hs⟩
  · obtain ⟨rfl, rfl⟩ := List.append_eq_nil_iff.mp h.symm
    exact ⟨[], [], rfl, rfl, rfl, by simp⟩
  · cases u with
    | nil => exact ⟨[], _, rfl, rfl, h, by simp⟩
    | cons d u =>
      rw [hs] at h
      obtain ⟨rfl, htail⟩ := List.cons.inj h
      obtain ⟨a, b, rfl, rfl, rfl, hcut⟩ := exists_of_blind_eq_append htail
      refine ⟨'\\' :: '"' :: a, b, rfl, blind_escaped a, rfl, ?_⟩
      rintro ⟨hlast, hhead⟩
      cases a with
      | nil => cases hlast
      | cons e a => exact hcut ⟨hlast, hhead⟩
  · cases u with
    | nil => exact ⟨[], _, rfl, rfl, h, by simp⟩
    | cons d u =>
      rw [hs] at h
      obtain ⟨rfl, htail⟩ := List.cons.inj h
      obtain ⟨a, b, rfl, rfl, rfl, hcut⟩ := exists_of_blind_eq_append htail
      refine ⟨c :: a, b, rfl, blind_cons ?_, rfl, ?_⟩
      · rintro ⟨rfl, hhead⟩
        obtain ⟨a', rfl⟩ := List.head?_eq_some_iff.mp hhead
        exact hc ⟨rfl, rfl⟩
      · rintro ⟨hlast, hhead⟩
        cases a with
        | nil => exact hc ⟨Option.some.inj hlast, hhead⟩
        | cons e a => exact hcut ⟨hlast, hhead⟩
termination_by s.length

lemma exists_of_blind_eq_quote {s v : Str} (h : blind s = '"' :: v) :
    ∃ q b, s = q ++ b ∧ OptQuote q ∧ blind b = v := by
  rcases blind_cases s with rfl | ⟨s', rfl, hs⟩ | ⟨c, s', rfl, hc, hs⟩
  · cases h
  · rw [hs] at h
    exact ⟨_, s', rfl, .escaped, (List.cons.inj h).2⟩
  · rw [hs] at h
    obtain ⟨rfl, htail⟩ := List.cons.inj h
    exact ⟨_, s', rfl, .plain, htail⟩

lemma exists_of_blind_eq_cons {s v : Str} {c : Char} (hc : c ≠ '"') (h : blind s = c :: v) :
    ∃ b, s = c :: b ∧ blind b = v := by
  rcases blind_cases s with rfl | ⟨s', rfl, hs⟩ | ⟨d, s', rfl, hd, hs⟩
  · cases h
  · rw [hs] at h
    exact absurd (List.cons.inj h).1.symm hc
  · rw [hs] at h
    obtain ⟨rfl, htail⟩ := List.cons.inj h
    exact ⟨s', rfl, htail⟩

lemma exists_of_blind_eq_plain {s u v : Str} (hu : '"' ∉ u) (h : blind s = u ++ v) :
    ∃ b, s = u ++ b ∧ blind b = v := by
  induction u generalizing s with
  | nil => exact ⟨s, rfl, h⟩
  | cons c u ih =>
    rw [List.mem_cons, not_or] at hu
    obtain ⟨s', rfl, hs'⟩ := exists_of_blind_eq_cons (fun hc => hu.1 hc.symm) h
    obtain ⟨b, rfl, hb⟩ := ih hu.2 hs'
    exact ⟨b, rfl, hb⟩

lemma eq_nil_of_blind {s : Str} (h : blind s = []) : s = [] := by
  rcases blind_cases s with rfl | ⟨s', rfl, hs⟩ | ⟨c, s', rfl, hc, hs⟩
  · rfl
  · rw [hs] at h
    cases h
  · rw [hs] at h
    cases h

/-! ### Structural quotes -/

/-- In front of a key stands a brace or a comma, and its value is a string, or a comma and a string
in front of it. -/
def Anchored (front : Str) (d : Char) (back : Str) : Prop :=
  ((d = '{' ∨ d = ',') ∧ ∃ w r, Blank w ∧ back = w ++ '"' :: r) ∨
    d = ',' ∧ ∃ l w, Blank w ∧ front = l ++ '"' :: w

lemma eq_of_anchored {front back : Str} {d : Char} (h : Anchored front d back) :
    d = '{' ∨ d = ',' := by
  rcases h with ⟨hd, -⟩ | ⟨rfl, -⟩
  · exact hd
  · exact .inr rfl

/-- The text in front of a structural quote and behind it, with all quotes unescaped. -/
inductive Structural : Str → Str → Prop where
  /-- the end of the last value -/
  | last {front w r : Str} (hw : Blank w) : Structural front (w ++ '}' :: r)
  /-- the end of a value in front of a key -/
  | value {front w w' k w'' r : Str} (hw : Blank w) (hw' : Blank w') (hk : IsKey k)
      (hw'' : Blank w'') :
      Structural front (w ++ ',' :: (w' ++ '"' :: (k ++ '"' :: (w'' ++ ':' :: r))))
  | opensKey {l w k w' r : Str} {d : Char} (h : Anchored l d r) (hw : Blank w) (hk : IsKey k)
      (hw' : Blank w') : Structural (l ++ d :: w) (k ++ '"' :: (w' ++ ':' :: r))
  | closesKey {l w k w' r : Str} {d : Char} (h : Anchored l d r) (hw : Blank w) (hk : IsKey k)
      (hw' : Blank w') : Structural (l ++ d :: (w ++ '"' :: k)) (w' ++ ':' :: r)
  | opensValue {l w k w' w'' back : Str} {d : Char} (hd : d = '{' ∨ d = ',') (hw : Blank w)
      (hk : IsKey k) (hw' : Blank w') (hw'' : Blank w'') :
      Structural (l ++ d :: (w ++ '"' :: (k ++ '"' :: (w' ++ ':' :: w'')))) back

/-! ### Quotes in words -/

lemma blind_space {w : Str} (hw : Blank w) (s : Str) : blind (w ++ s) = w ++ blind s :=
  blind_append_of_not_mem (not_mem_of_blank hw (by simp)) s

lemma IsKey.blind_append {k : Str} (hk : IsKey k) (s : Str) : blind (k ++ s) = k ++ blind s :=
  blind_append_of_not_mem (hk.not_mem (by simp)) s

lemma blind_append_mark {c : Char} (hc : c ∈ ['{', '}', ',', ':']) (a s : Str) :
    blind (a ++ c :: s) = blind a ++ c :: blind s := by
  have hne : c ≠ '"' ∧ c ≠ '\\' := by
    simp only [List.mem_cons, List.not_mem_nil, or_false] at hc
    rcases hc with rfl | rfl | rfl | rfl <;> exact ⟨by simp, by simp⟩
  rw [blind_append_cons hne.1, blind_cons_of_ne hne.2]

lemma blind_mark {c : Char} (hc : c ∈ ['{', '}', ',', ':']) (s : Str) :
    blind (c :: s) = c :: blind s := blind_append_mark hc [] s

lemma KeyParts.blind_append {w q k q' w' : Str} (h : KeyParts w q k q' w') (s : Str) :
    blind (keyText w q k q' w' ++ s) = w ++ '"' :: (k ++ '"' :: (w' ++ ':' :: blind s)) := by
  simp only [keyText, List.append_assoc]
  rw [blind_space h.space, h.opens.blind_append, h.key.blind_append, h.closes.blind_append,
    blind_space h.space', List.singleton_append, blind_mark (by simp)]

/-- A quote does not stand in a text without quotes and backslashes. -/
lemma exists_of_append_eq_quote {u v e q s : Str} (hu : '"' ∉ u) (hu' : '\\' ∉ u) (hq : OptQuote q)
    (h : u ++ v = e ++ (q ++ s)) : ∃ e', e = u ++ e' ∧ v = e' ++ (q ++ s) := by
  induction u generalizing e with
  | nil => exact ⟨e, rfl, h⟩
  | cons c u ih =>
    rw [List.mem_cons, not_or] at hu hu'
    cases e with
    | nil =>
      exfalso
      cases hq with
      | plain => exact hu.1 (List.cons.inj h).1.symm
      | escaped => exact hu'.1 (List.cons.inj h).1.symm
    | cons d e =>
      obtain ⟨rfl, htail⟩ := List.cons.inj h
      obtain ⟨e', rfl, hv⟩ := ih hu.2 hu'.2 htail
      exact ⟨e', rfl, hv⟩

/-- A quote is another one, or behind it. -/
lemma eq_or_exists_of_quote_append {q v e q' s : Str} (hq : OptQuote q) (hq' : OptQuote q')
    (h : q ++ v = e ++ (q' ++ s)) :
    (e ++ q' = q ∧ v = s) ∨ ∃ e', e = q ++ e' ∧ v = e' ++ (q' ++ s) := by
  cases hq with
  | plain =>
    cases e with
    | nil =>
      cases hq' with
      | plain => exact .inl ⟨rfl, (List.cons.inj h).2⟩
      | escaped => cases (List.cons.inj h).1
    | cons c e =>
      obtain ⟨rfl, htail⟩ := List.cons.inj h
      exact .inr ⟨e, rfl, htail⟩
  | escaped =>
    cases e with
    | nil =>
      cases hq' with
      | plain => cases (List.cons.inj h).1
      | escaped => exact .inl ⟨rfl, (List.cons.inj (List.cons.inj h).2).2⟩
    | cons c e =>
      obtain ⟨rfl, htail⟩ := List.cons.inj h
      cases e with
      | nil =>
        cases hq' with
        | plain => exact .inl ⟨rfl, (List.cons.inj htail).2⟩
        | escaped => cases (List.cons.inj htail).1
      | cons c e =>
        obtain ⟨rfl, htail'⟩ := List.cons.inj htail
        exact .inr ⟨e, rfl, htail'⟩

/-- The quotes of a key are those around it. -/
lemma KeyParts.split {w q k q' w' : Str} (h : KeyParts w q k q' w') {v e q₁ s : Str}
    (hq₁ : OptQuote q₁) (heq : keyText w q k q' w' ++ v = e ++ (q₁ ++ s)) :
    (∃ e', e = w ++ e' ∧ e' ++ q₁ = q ∧ s = k ++ (q' ++ (w' ++ ':' :: v))) ∨
      (∃ e', e = w ++ (q ++ (k ++ e')) ∧ e' ++ q₁ = q' ∧ s = w' ++ ':' :: v) ∨
      ∃ e', e = keyText w q k q' w' ++ e' ∧ v = e' ++ (q₁ ++ s) := by
  simp only [keyText, List.append_assoc] at heq
  obtain ⟨e₁, rfl, h₁⟩ := exists_of_append_eq_quote (not_mem_of_blank h.space (by simp))
    (not_mem_of_blank h.space (by simp)) hq₁ heq
  rcases eq_or_exists_of_quote_append h.opens hq₁ h₁ with ⟨hq, hs⟩ | ⟨e₂, rfl, h₂⟩
  · exact .inl ⟨e₁, rfl, hq, by simpa using hs.symm⟩
  · obtain ⟨e₃, rfl, h₃⟩ := exists_of_append_eq_quote (h.key.not_mem (by simp))
      (h.key.not_mem (by simp)) hq₁ h₂
    rcases eq_or_exists_of_quote_append h.closes hq₁ h₃ with ⟨hq, hs⟩ | ⟨e₄, rfl, h₄⟩
    · exact .inr (.inl ⟨e₃, rfl, hq, by simpa using hs.symm⟩)
    · have hcolon : ∀ c ∈ ['"', '\\'], c ∉ w' ++ [':'] := by
        intro c hc
        simp only [List.mem_cons, List.not_mem_nil, or_false] at hc
        rcases hc with rfl | rfl
        · simp [not_mem_of_blank h.space' (by simp : '"' ∈ _)]
        · simp [not_mem_of_blank h.space' (by simp : '\\' ∈ _)]
      rw [← List.append_assoc] at h₄
      obtain ⟨e₅, rfl, h₅⟩ := exists_of_append_eq_quote (hcolon _ (by simp)) (hcolon _ (by simp))
        hq₁ h₄
      exact .inr (.inr ⟨e₅, by simp [keyText], h₅⟩)

lemma OptQuote.eq_nil_of_append_escaped {q e : Str} (hq : OptQuote q) (h : e ++ ['\\', '"'] = q) :
    e = [] := by
  have hlen := congrArg List.length h
  rw [List.length_append] at hlen
  cases hq with
  | plain => simp at hlen
  | escaped => simpa using hlen

section Sound

variable {a m₁ m₂ : Str} (b : Str)

lemma structural_of_KV_PAIR
    (h : Pattern.Matches STRUCTURAL_KV_PAIR (m₁ ++ (['\\', '"'] ++ m₂))) :
    Structural (blind (a ++ m₁)) (blind (m₂ ++ b)) := by
  obtain ⟨d, w, q, k, q', w', w'', q'', hd, hparts, hw'', hq'', heq⟩ := matches_KV_PAIR.mp h
  have hmark : d ∈ ['{', '}', ',', ':'] := by
    rcases hd with rfl | rfl <;> decide
  have hvalue : blind (w'' ++ q'' ++ b) = w'' ++ '"' :: blind b := by
    rw [List.append_assoc, blind_space hw'', hq''.blind_append]
  have hanchor : Anchored (blind a) d (blind (w'' ++ q'' ++ b)) :=
    .inl ⟨hd, w'', blind b, hw'', hvalue⟩
  cases m₁ with
  | nil =>
    obtain ⟨rfl, -⟩ := List.cons.inj heq
    rcases hd with hd | hd <;> cases hd
  | cons c e =>
    obtain ⟨rfl, htail⟩ := List.cons.inj heq
    rw [blind_append_mark hmark]
    rcases hparts.split .escaped htail.symm with ⟨e, rfl, hq, rfl⟩ | ⟨e, rfl, hq, rfl⟩ |
      ⟨e, rfl, hr⟩
    · obtain rfl := hparts.opens.eq_nil_of_append_escaped hq
      have hback : blind (k ++ (q' ++ (w' ++ ':' :: (w'' ++ q''))) ++ b) =
          k ++ '"' :: (w' ++ ':' :: blind (w'' ++ q'' ++ b)) := by
        simp only [List.append_assoc, List.cons_append]
        rw [hparts.key.blind_append, hparts.closes.blind_append, blind_append_mark (by simp),
          blind_of_not_mem (not_mem_of_blank hparts.space' (by simp))]
      rw [blind_space hparts.space, hback, blind_nil, List.append_nil]
      exact .opensKey hanchor hparts.space hparts.key hparts.space'
    · obtain rfl := hparts.closes.eq_nil_of_append_escaped hq
      have hback : blind (w' ++ ':' :: (w'' ++ q'') ++ b) =
          w' ++ ':' :: blind (w'' ++ q'' ++ b) := by
        rw [List.append_assoc, blind_space hparts.space', List.cons_append, blind_mark (by simp)]
      rw [blind_space hparts.space, hparts.opens.blind_append, hparts.key.blind_append, hback,
        blind_nil, List.append_nil]
      exact .closesKey hanchor hparts.space hparts.key hparts.space'
    · obtain ⟨e, rfl, hr⟩ := exists_of_append_eq_quote (not_mem_of_blank hw'' (by simp))
        (not_mem_of_blank hw'' (by simp)) .escaped hr
      have hlast := eq_or_exists_of_quote_append (v := []) hq'' .escaped (by simpa using hr)
      rcases hlast with ⟨hq, -⟩ | ⟨e, -, hnil⟩
      · obtain rfl := hq''.eq_nil_of_append_escaped hq
        rw [hparts.blind_append, List.append_nil,
          blind_of_not_mem (not_mem_of_blank hw'' (by simp))]
        exact .opensValue hd hparts.space hparts.key hparts.space' hw''
      · simp at hnil

lemma structural_of_VALUE_CLOSE_THEN_KEY
    (h : Pattern.Matches STRUCTURAL_VALUE_CLOSE_THEN_KEY (m₁ ++ (['\\', '"'] ++ m₂))) :
    Structural (blind (a ++ m₁)) (blind (m₂ ++ b)) := by
  obtain ⟨q₀, w₀, w, q, k, q', w', hq₀, hw₀, hparts, heq⟩ := matches_VALUE_CLOSE_THEN_KEY.mp h
  rcases eq_or_exists_of_quote_append hq₀ .escaped heq.symm with ⟨-, rfl⟩ | ⟨e, rfl, h₁⟩
  · have hback : blind (w₀ ++ ',' :: keyText w q k q' w' ++ b) =
        w₀ ++ ',' :: (w ++ '"' :: (k ++ '"' :: (w' ++ ':' :: blind b))) := by
      rw [List.append_assoc, blind_space hw₀, List.cons_append, blind_mark (by simp),
        hparts.blind_append]
    rw [hback]
    exact .value hw₀ hparts.space hparts.key hparts.space'
  · obtain ⟨e, rfl, h₂⟩ := exists_of_append_eq_quote (not_mem_of_blank hw₀ (by simp))
      (not_mem_of_blank hw₀ (by simp)) .escaped h₁
    cases e with
    | nil => cases (List.cons.inj h₂).1
    | cons c e =>
      obtain ⟨rfl, htail⟩ := List.cons.inj h₂
      have hkey : keyText w q k q' w' ++ [] = e ++ (['\\', '"'] ++ m₂) := by
        rw [List.append_nil]
        exact htail
      obtain ⟨l, hl⟩ := exists_blind_quote hq₀ a (w₀ ++ ',' :: e)
      have hanchor : ∀ r, Anchored (l ++ '"' :: w₀) ',' r := fun r => .inr ⟨rfl, l, w₀, hw₀, rfl⟩
      have hfront : blind (a ++ (q₀ ++ (w₀ ++ ',' :: e))) = (l ++ '"' :: w₀) ++ ',' :: blind e := by
        rw [hl, blind_space hw₀, blind_mark (by simp), List.append_assoc, List.cons_append]
      rw [hfront]
      rcases hparts.split .escaped hkey with ⟨e, rfl, hq, rfl⟩ | ⟨e, rfl, hq, rfl⟩ | ⟨e, rfl, hr⟩
      · obtain rfl := hparts.opens.eq_nil_of_append_escaped hq
        have hback : blind (k ++ (q' ++ (w' ++ [':'])) ++ b) =
            k ++ '"' :: (w' ++ ':' :: blind b) := by
          simp only [List.append_assoc, List.singleton_append]
          rw [hparts.key.blind_append, hparts.closes.blind_append, blind_space hparts.space',
            blind_mark (by simp)]
        rw [blind_space hparts.space, hback, blind_nil, List.append_nil]
        exact .opensKey (hanchor _) hparts.space hparts.key hparts.space'
      · obtain rfl := hparts.closes.eq_nil_of_append_escaped hq
        have hback : blind (w' ++ [':'] ++ b) = w' ++ ':' :: blind b := by
          rw [List.append_assoc, List.singleton_append, blind_space hparts.space',
            blind_mark (by simp)]
        rw [blind_space hparts.space, hparts.opens.blind_append, hparts.key.blind_append, hback,
          blind_nil, List.append_nil]
        exact .closesKey (hanchor _) hparts.space hparts.key hparts.space'
      · simp at hr

lemma structural_of_VALUE_CLOSE
    (h : Pattern.Matches STRUCTURAL_VALUE_CLOSE (m₁ ++ (['\\', '"'] ++ m₂))) :
    Structural (blind (a ++ m₁)) (blind (m₂ ++ b)) := by
  obtain ⟨w, hw, heq⟩ := matches_VALUE_CLOSE.mp h
  have heq' : ['\\', '"'] ++ (w ++ ['}']) = m₁ ++ (['\\', '"'] ++ m₂) := heq.symm
  rcases eq_or_exists_of_quote_append .escaped .escaped heq' with ⟨-, rfl⟩ | ⟨e, -, hr⟩
  · rw [List.append_assoc, blind_space hw, List.singleton_append, blind_mark (by simp)]
    exact .last hw
  · exfalso
    obtain ⟨e, -, hr⟩ := exists_of_append_eq_quote (not_mem_of_blank hw (by simp))
      (not_mem_of_blank hw (by simp)) .escaped hr
    have hmem : '"' ∈ ['}'] := by
      rw [hr]
      simp
    exact absurd hmem (by simp)

end Sound

/-! ### Words around a structural quote -/

section Complete

variable {a b : Str}

lemma eq_of_blind_plain {u : Str} (hu : '"' ∉ u) (h : blind a = u) : u = a := by
  obtain ⟨r, rfl, hr⟩ := exists_of_blind_eq_plain (v := []) hu (h.trans (List.append_nil u).symm)
  rw [eq_nil_of_blind hr, List.append_nil]

lemma exists_of_blind_eq_mark {l t : Str} {c : Char} (hc : c ∈ ['{', '}', ',', ':'])
    (h : blind a = l ++ c :: t) : ∃ a' s, a = a' ++ c :: s ∧ blind a' = l ∧ blind s = t := by
  obtain ⟨a', s, rfl, hl, hs, -⟩ := exists_of_blind_eq_append h
  have hne : c ≠ '"' := by
    rintro rfl
    exact absurd hc (by simp)
  obtain ⟨s, rfl, ht⟩ := exists_of_blind_eq_cons hne hs
  exact ⟨a', s, rfl, hl, ht⟩

/-- White space and a mark are those of the text. -/
lemma exists_of_blind_eq_space {w r : Str} {c : Char} (hw : Blank w) (hc : c ∈ ['{', '}', ',', ':'])
    (h : blind b = w ++ c :: r) : ∃ b', b = w ++ c :: b' ∧ blind b' = r := by
  obtain ⟨b', rfl, hb'⟩ := exists_of_blind_eq_plain (not_mem_of_blank hw (by simp)) h
  obtain ⟨s, t, heq, hs, ht⟩ := exists_of_blind_eq_mark (l := []) hc hb'
  rw [eq_nil_of_blind hs, List.nil_append] at heq
  exact ⟨t, by rw [heq], ht⟩

/-- Behind white space there is a quote. -/
lemma exists_of_blind_eq_spaceQuote {w r : Str} (hw : Blank w) (h : blind b = w ++ '"' :: r) :
    ∃ q b', OptQuote q ∧ b = w ++ (q ++ b') ∧ blind b' = r := by
  obtain ⟨b', rfl, hb'⟩ := exists_of_blind_eq_plain (not_mem_of_blank hw (by simp)) h
  obtain ⟨q, b', rfl, hq, hr⟩ := exists_of_blind_eq_quote hb'
  exact ⟨q, b', hq, rfl, hr⟩

/-- A key, up to its colon. -/
lemma exists_of_blind_eq_key {k w r : Str} (hk : IsKey k) (hw : Blank w)
    (h : blind b = k ++ '"' :: (w ++ ':' :: r)) :
    ∃ q b', OptQuote q ∧ b = k ++ (q ++ (w ++ ':' :: b')) ∧ blind b' = r := by
  obtain ⟨b₁, rfl, hb₁⟩ := exists_of_blind_eq_plain (hk.not_mem (by simp)) h
  obtain ⟨q, b₂, rfl, hq, hb₂⟩ := exists_of_blind_eq_quote hb₁
  obtain ⟨b₃, rfl, hb₃⟩ := exists_of_blind_eq_space hw (by simp) hb₂
  exact ⟨q, b₃, hq, rfl, hb₃⟩

/-- The text in front of a place where a match starts does not end in the backslash of a quote. -/
def Uncut (a m : Str) : Prop := ¬ (a.getLast? = some '\\' ∧ m.head? = some '"')

lemma exists_of_blind_eq_lastQuote {l w : Str} (hw : Blank w) (h : blind a = l ++ '"' :: w) :
    ∃ a' q, a = a' ++ (q ++ w) ∧ OptQuote q ∧ ∀ s, Uncut a' (q ++ s) := by
  obtain ⟨a', s, rfl, -, hs, hcut⟩ := exists_of_blind_eq_append h
  obtain ⟨q, s, rfl, hq, hs⟩ := exists_of_blind_eq_quote hs
  obtain rfl := eq_of_blind_plain (not_mem_of_blank hw (by simp)) hs
  refine ⟨a', q, rfl, hq, fun t => ?_⟩
  cases hq <;> exact hcut

/-- The match of one of the patterns. -/
def Word (m : Str) : Prop :=
  Pattern.Matches STRUCTURAL_KV_PAIR m ∨ Pattern.Matches STRUCTURAL_VALUE_CLOSE_THEN_KEY m ∨
    Pattern.Matches STRUCTURAL_VALUE_CLOSE m

lemma word_KV_PAIR {d : Char} {w q k q' w' w'' q'' m : Str} (hd : d = '{' ∨ d = ',')
    (h : KeyParts w q k q' w') (hw'' : Blank w'') (hq'' : OptQuote q'')
    (hm : m = d :: (keyText w q k q' w' ++ (w'' ++ q''))) : Word m :=
  .inl (matches_KV_PAIR.mpr ⟨d, w, q, k, q', w', w'', q'', hd, h, hw'', hq'', hm⟩)

lemma word_VALUE_CLOSE_THEN_KEY {q₀ w₀ w q k q' w' m : Str} (hq₀ : OptQuote q₀) (hw₀ : Blank w₀)
    (h : KeyParts w q k q' w') (hm : m = q₀ ++ (w₀ ++ ',' :: keyText w q k q' w')) : Word m :=
  .inr (.inl (matches_VALUE_CLOSE_THEN_KEY.mpr ⟨q₀, w₀, w, q, k, q', w', hq₀, hw₀, h, hm⟩))

/-- A structural quote is in a match. -/
lemma exists_word_of_structural (h : Structural (blind a) (blind b)) :
    ∃ a' m₁ m₂ b', a = a' ++ m₁ ∧ b = m₂ ++ b' ∧ Word (m₁ ++ (['\\', '"'] ++ m₂)) ∧
      Uncut a' (m₁ ++ (['\\', '"'] ++ m₂)) := by
  have huncut : ∀ {a' : Str} {d : Char} {s : Str}, d ≠ '"' → Uncut a' (d :: s) :=
    fun hd h => hd (Option.some.inj h.2)
  have hmark : ∀ {d : Char}, d = '{' ∨ d = ',' → d ∈ ['{', '}', ',', ':'] ∧ d ≠ '"' := by
    rintro d (rfl | rfl) <;> exact ⟨by simp, by simp⟩
  generalize hfront : blind a = front at h
  generalize hback : blind b = back at h
  cases h with
  | @last _ w r hw =>
    obtain ⟨b', rfl, -⟩ := exists_of_blind_eq_space hw (by simp) hback
    refine ⟨a, [], w ++ ['}'], b', by simp, by simp, .inr (.inr ?_), huncut (by simp)⟩
    exact matches_VALUE_CLOSE.mpr ⟨w, hw, rfl⟩
  | @value _ w w' k w'' r hw hw' hk hw'' =>
    obtain ⟨b₁, rfl, hb₁⟩ := exists_of_blind_eq_space hw (by simp) hback
    obtain ⟨q, b₂, hq, rfl, hb₂⟩ := exists_of_blind_eq_spaceQuote hw' hb₁
    obtain ⟨q', b₃, hq', rfl, -⟩ := exists_of_blind_eq_key hk hw'' hb₂
    refine ⟨a, [], w ++ ',' :: keyText w' q k q' w'', b₃, by simp, by simp [keyText], ?_,
      huncut (by simp)⟩
    exact word_VALUE_CLOSE_THEN_KEY .escaped hw ⟨hw', hq, hk, hq', hw''⟩ rfl
  | @opensKey l w k w' r d hanchored hw hk hw' =>
    obtain ⟨hd, hdquote⟩ := hmark (eq_of_anchored hanchored)
    obtain ⟨a₁, s, rfl, hl, hs⟩ := exists_of_blind_eq_mark hd hfront
    obtain rfl := eq_of_blind_plain (not_mem_of_blank hw (by simp)) hs
    obtain ⟨q', b₁, hq', rfl, hb₁⟩ := exists_of_blind_eq_key hk hw' hback
    have hparts : KeyParts w ['\\', '"'] k q' w' := ⟨hw, .escaped, hk, hq', hw'⟩
    rcases hanchored with ⟨hd, w₂, r', hw₂, rfl⟩ | ⟨rfl, l', w₀, hw₀, rfl⟩
    · obtain ⟨q₂, b₂, hq₂, rfl, -⟩ := exists_of_blind_eq_spaceQuote hw₂ hb₁
      exact ⟨a₁, d :: w, k ++ (q' ++ (w' ++ ':' :: (w₂ ++ q₂))), b₂, rfl, by simp,
        word_KV_PAIR hd hparts hw₂ hq₂ (by simp [keyText]), huncut hdquote⟩
    · obtain ⟨a₂, q₀, rfl, hq₀, hcut⟩ := exists_of_blind_eq_lastQuote hw₀ hl
      refine ⟨a₂, q₀ ++ (w₀ ++ ',' :: w), k ++ (q' ++ (w' ++ [':'])), b₁, by simp, by simp,
        word_VALUE_CLOSE_THEN_KEY hq₀ hw₀ hparts (by simp [keyText]), ?_⟩
      rw [List.append_assoc]
      exact hcut _
  | @closesKey l w k w' r d hanchored hw hk hw' =>
    obtain ⟨hd, hdquote⟩ := hmark (eq_of_anchored hanchored)
    obtain ⟨a₁, s, rfl, hl, hs⟩ := exists_of_blind_eq_mark hd hfront
    obtain ⟨q, s, hq, rfl, hs₁⟩ := exists_of_blind_eq_spaceQuote hw hs
    obtain rfl := eq_of_blind_plain (hk.not_mem (by simp)) hs₁
    obtain ⟨b₁, rfl, hb₁⟩ := exists_of_blind_eq_space hw' (by simp) hback
    have hparts : KeyParts w q k ['\\', '"'] w' := ⟨hw, hq, hk, .escaped, hw'⟩
    rcases hanchored with ⟨hd, w₂, r', hw₂, rfl⟩ | ⟨rfl, l', w₀, hw₀, rfl⟩
    · obtain ⟨q₂, b₂, hq₂, rfl, -⟩ := exists_of_blind_eq_spaceQuote hw₂ hb₁
      exact ⟨a₁, d :: (w ++ (q ++ k)), w' ++ ':' :: (w₂ ++ q₂), b₂, rfl, by simp,
        word_KV_PAIR hd hparts hw₂ hq₂ (by simp [keyText]), huncut hdquote⟩
    · obtain ⟨a₂, q₀, rfl, hq₀, hcut⟩ := exists_of_blind_eq_lastQuote hw₀ hl
      refine ⟨a₂, q₀ ++ (w₀ ++ ',' :: (w ++ (q ++ k))), w' ++ [':'], b₁, by simp, by simp,
        word_VALUE_CLOSE_THEN_KEY hq₀ hw₀ hparts (by simp [keyText]), ?_⟩
      rw [List.append_assoc]
      exact hcut _
  | @opensValue l w k w' w'' _ d hd hw hk hw' hw'' =>
    obtain ⟨hmem, hdquote⟩ := hmark hd
    obtain ⟨a₁, s, rfl, -, hs⟩ := exists_of_blind_eq_mark hmem hfront
    obtain ⟨q, s, hq, rfl, hs₁⟩ := exists_of_blind_eq_spaceQuote hw hs
    obtain ⟨q', s, hq', rfl, hs₂⟩ := exists_of_blind_eq_key hk hw' hs₁
    obtain rfl := eq_of_blind_plain (not_mem_of_blank hw'' (by simp)) hs₂
    exact ⟨a₁, d :: (keyText w q k q' w' ++ w''), [], b, by simp [keyText], rfl,
      word_KV_PAIR hd ⟨hw, hq, hk, hq', hw'⟩ hw'' .escaped (by simp), huncut hdquote⟩

end Complete

end ModelApi.Gemma
