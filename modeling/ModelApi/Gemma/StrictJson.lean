import ModelApi.Gemma.Rendering

/-!
# A strict JSON parser

An executable parser that accepts exactly the strict renderings, for every way to read numbers.
-/

namespace ModelApi.Gemma

open Lib Lib.Str

variable {N : Type} (number : Str → Option N)

/-! ### The parser -/

def skipSpace (s : Str) : Str := s.dropWhile isJsonSpace

def expect (c : Char) (s : Str) : Option Str := if s.head? = some c then some s.tail else none

def readHex4 : Str → Option (ℕ × Str)
  | a :: b :: c :: d :: s => (hex4 a b c d).map fun n => (n, s)
  | _                     => none

/-- The second half of a surrogate pair. -/
def unescapePair (n : ℕ) (s : Str) : Option (Char × Str) := do
  let (n', s) ← readHex4 (← expect 'u' (← expect '\\' s))
  if 0xDC00 ≤ n' ∧ n' < 0xE000 then
    return (Char.ofNat (0x10000 + (n - 0xD800) * 0x400 + (n' - 0xDC00)), s)
  else none

/-- Read the character that is spelled behind a backslash. -/
def unescape : Str → Option (Char × Str)
  | []     => none
  | e :: s =>
    if e = 'u' then do
      let (n, s) ← readHex4 s
      if n < 0xD800 ∨ 0xE000 ≤ n then return (Char.ofNat n, s)
      else if n < 0xDC00 then unescapePair n s
      else none
    else (shortEscape e).map fun c => (c, s)

/-- Read up to the closing quote, which is read as well. -/
def parseChars : ℕ → Str → Option (Str × Str)
  | 0, _             => none
  | _ + 1, []        => none
  | fuel + 1, c :: s =>
    if c = '"' then some ([], s)
    else if c = '\\' then do
      let (x, s) ← unescape s
      let (xs, s) ← parseChars fuel s
      return (x :: xs, s)
    else if c.toNat < 0x20 then none
    else do
      let (xs, s) ← parseChars fuel s
      return (c :: xs, s)

def parseString (s : Str) : Option (Str × Str) := do
  let s ← expect '"' s
  parseChars (s.length + 1) s

def parseNumber (s : Str) : Option (Value N × Str) :=
  let lit := s.takeWhile isNumberChar
  if isNumberLiteral lit then (number lit).map fun x => (.number x, s.dropWhile isNumberChar)
  else none

mutual

/-- Read a value with at most `n` containers inside each other. -/
def parseValue : ℕ → ℕ → Str → Option (Value N × Str)
  | 0, _, _        => none
  | fuel + 1, n, s =>
    match s.head?, n with
    | some '"', _     => (parseString s).map fun p => (.string p.1, p.2)
    | some '[', 0     => none
    | some '{', 0     => none
    | some '[', n + 1 =>
      match expect ']' (skipSpace s.tail) with
      | some s' => some (.array [], s')
      | none    => (parseElements fuel n s.tail).map fun p => (.array p.1, p.2)
    | some '{', n + 1 =>
      match expect '}' (skipSpace s.tail) with
      | some s' => some (.object [], s')
      | none    => (parseMembers fuel n s.tail).map fun p => (.object (Map.ofMembers p.1), p.2)
    | some 'n', _ => (stripPrefix s "null".toList).map fun s => (.null, s)
    | some 't', _ => (stripPrefix s "true".toList).map fun s => (.bool true, s)
    | some 'f', _ => (stripPrefix s "false".toList).map fun s => (.bool false, s)
    | _, _        => parseNumber number s

/-- Read the elements of an array and its closing bracket. -/
def parseElements : ℕ → ℕ → Str → Option (List (Value N) × Str)
  | 0, _, _        => none
  | fuel + 1, n, s => do
    let (v, s) ← parseValue fuel n (skipSpace s)
    match expect ',' (skipSpace s) with
    | some s =>
      let (vs, s) ← parseElements fuel n s
      return (v :: vs, s)
    | none => return ([v], ← expect ']' (skipSpace s))

/-- Read the members of an object and its closing brace. -/
def parseMembers : ℕ → ℕ → Str → Option (List (Str × Value N) × Str)
  | 0, _, _        => none
  | fuel + 1, n, s => do
    let (k, s) ← parseString (skipSpace s)
    let s ← expect ':' (skipSpace s)
    let (v, s) ← parseValue fuel n (skipSpace s)
    match expect ',' (skipSpace s) with
    | some s =>
      let (ms, s) ← parseMembers fuel n s
      return ((k, v) :: ms, s)
    | none => return ([(k, v)], ← expect '}' (skipSpace s))

end

def fromStr (s : Str) : Option (Value N) := do
  let (v, s) ← parseValue number (s.length + 1) MAX_NESTING (skipSpace s)
  if skipSpace s = [] then return v else none

/-! ### White space -/

lemma expect_eq_some {c : Char} {s t : Str} : expect c s = some t ↔ s = c :: t := by
  cases s with
  | nil => simp [expect]
  | cons d s =>
    by_cases h : d = c
    · simp [expect, h]
    · simp [expect, h]

@[simp] lemma expect_cons_self (c : Char) (s : Str) : expect c (c :: s) = some s :=
  expect_eq_some.mpr rfl

lemma expect_eq_none {c d : Char} {s : Str} (h : d ≠ c) : expect c (d :: s) = none :=
  if_neg (by simpa using h)

lemma space_nil : Space [] := nofun

lemma exists_skipSpace (s : Str) : ∃ w, Space w ∧ s = w ++ skipSpace s :=
  ⟨s.takeWhile isJsonSpace, fun _ hc => List.mem_takeWhile_imp hc,
    List.takeWhile_append_dropWhile.symm⟩

lemma skipSpace_append {w s : Str} (hw : Space w) (hs : ∀ c ∈ s.head?, isJsonSpace c = false) :
    skipSpace (w ++ s) = s := by
  rw [skipSpace, List.dropWhile_append_of_pos hw]
  cases s with
  | nil => rfl
  | cons c s => exact List.dropWhile_cons_of_neg (by simp [hs c rfl])

lemma skipSpace_cons {w s : Str} {c : Char} (hw : Space w) (hc : isJsonSpace c = false) :
    skipSpace (w ++ c :: s) = c :: s :=
  skipSpace_append hw (by rintro d ⟨⟩; exact hc)

/-- How white space and a character start. -/
lemma head_of_space {w s : Str} {c : Char} (hw : Space w) :
    ∀ d ∈ (w ++ c :: s).head?, isJsonSpace d = true ∨ d = c := by
  cases w with
  | nil =>
    rintro d ⟨⟩
    exact .inr rfl
  | cons e w =>
    rintro d ⟨⟩
    exact .inl (hw _ List.mem_cons_self)

lemma skipSpace_eq_nil {w : Str} : skipSpace w = [] ↔ Space w := List.dropWhile_eq_nil_iff

/-! ### Strings -/

lemma readHex4_eq_some {s r : Str} {n : ℕ} :
    readHex4 s = some (n, r) ↔ ∃ a b c d, s = a :: b :: c :: d :: r ∧ hex4 a b c d = some n := by
  constructor
  · intro h
    match s, h with
    | a :: b :: c :: d :: s, h =>
      obtain ⟨m, hm, heq⟩ := Option.map_eq_some_iff.mp h
      obtain ⟨rfl, rfl⟩ := Prod.mk.inj heq
      exact ⟨a, b, c, d, rfl, hm⟩
  · rintro ⟨a, b, c, d, rfl, h⟩
    simp [readHex4, h]

lemma exists_of_unescape {s r : Str} {c : Char} (h : unescape s = some (c, r)) :
    ∃ e, s = e ++ r ∧ Unescapes e c := by
  cases s with
  | nil => cases h
  | cons e s =>
    rw [unescape] at h
    split_ifs at h with he
    · subst he
      obtain ⟨⟨n, s₁⟩, hhex, hchar⟩ := Option.bind_eq_some_iff.mp h
      obtain ⟨a, b, c₁, d, rfl, hn⟩ := readHex4_eq_some.mp hhex
      simp only at hchar
      split_ifs at hchar with hbmp hhigh
      · obtain ⟨rfl, rfl⟩ := Prod.mk.inj (Option.some.inj hchar)
        exact ⟨_, rfl, .unicode hn hbmp⟩
      · simp only [unescapePair, Option.bind_eq_bind, Option.bind_eq_some_iff] at hchar
        obtain ⟨s₂, hs₂, s₃, hs₃, ⟨n', s₄⟩, hhex', hpair⟩ := hchar
        obtain rfl := expect_eq_some.mp hs₂
        obtain rfl := expect_eq_some.mp hs₃
        obtain ⟨a', b', c', d', rfl, hn'⟩ := readHex4_eq_some.mp hhex'
        simp only at hpair
        split_ifs at hpair with hlow
        obtain ⟨rfl, rfl⟩ := Prod.mk.inj (Option.some.inj hpair)
        exact ⟨_, rfl, .pair hn ⟨by omega, hhigh⟩ hn' hlow⟩
    · obtain ⟨x, hx, heq⟩ := Option.map_eq_some_iff.mp h
      obtain ⟨rfl, rfl⟩ := Prod.mk.inj heq
      exact ⟨[e], rfl, .short hx⟩

lemma unescape_append {e : Str} {c : Char} (h : Unescapes e c) (r : Str) :
    unescape (e ++ r) = some (c, r) := by
  cases h with
  | @short e c h =>
    have hu : e ≠ 'u' := by
      rintro rfl
      cases h
    simp [unescape, hu, h]
  | @unicode a b c d n h hn =>
    have hread : readHex4 (a :: b :: c :: d :: r) = some (n, r) :=
      readHex4_eq_some.mpr ⟨a, b, c, d, rfl, h⟩
    simp [unescape, hread, hn]
  | @pair a b c d a' b' c' d' n n' h hn h' hn' =>
    have hread : readHex4 (a :: b :: c :: d :: '\\' :: 'u' :: a' :: b' :: c' :: d' :: r) =
        some (n, '\\' :: 'u' :: a' :: b' :: c' :: d' :: r) :=
      readHex4_eq_some.mpr ⟨a, b, c, d, rfl, h⟩
    have hread' : readHex4 (a' :: b' :: c' :: d' :: r) = some (n', r) :=
      readHex4_eq_some.mpr ⟨a', b', c', d', rfl, h'⟩
    have hbmp : ¬ (n < 0xD800 ∨ 0xE000 ≤ n) := by omega
    simp [unescape, hread, hbmp, hn.2, unescapePair, expect, hread', hn']

lemma exists_of_parseChars {fuel : ℕ} {s str r : Str} (h : parseChars fuel s = some (str, r)) :
    ∃ t, s = t ++ '"' :: r ∧ Chars .strict t str := by
  induction fuel generalizing s str with
  | zero => cases h
  | succ fuel ih =>
    cases s with
    | nil => cases h
    | cons c s =>
      rw [parseChars] at h
      split_ifs at h with hquote hbackslash hcontrol
      · obtain ⟨rfl, rfl⟩ := Prod.mk.inj (Option.some.inj h)
        exact ⟨[], by rw [hquote]; rfl, .nil⟩
      · obtain ⟨⟨x, s₁⟩, hx, hrest⟩ := Option.bind_eq_some_iff.mp h
        obtain ⟨⟨xs, s₂⟩, hxs, heq⟩ := Option.bind_eq_some_iff.mp hrest
        obtain ⟨rfl, rfl⟩ := Prod.mk.inj (Option.some.inj heq)
        obtain ⟨e, rfl, he⟩ := exists_of_unescape hx
        obtain ⟨t, rfl, ht⟩ := ih hxs
        exact ⟨'\\' :: (e ++ t), by simp [hbackslash], .escape he ht⟩
      · obtain ⟨⟨xs, s₁⟩, hxs, heq⟩ := Option.bind_eq_some_iff.mp h
        obtain ⟨rfl, rfl⟩ := Prod.mk.inj (Option.some.inj heq)
        obtain ⟨t, rfl, ht⟩ := ih hxs
        exact ⟨c :: t, rfl, .plain hquote hbackslash (not_lt.mp hcontrol) ht⟩

lemma parseChars_append {t str : Str} (h : Chars .strict t str) {fuel : ℕ}
    (hfuel : t.length < fuel) (r : Str) : parseChars fuel (t ++ '"' :: r) = some (str, r) := by
  induction h generalizing fuel with
  | nil =>
    obtain ⟨fuel, rfl⟩ := Nat.exists_eq_succ_of_ne_zero (Nat.ne_zero_of_lt hfuel)
    simp [parseChars]
  | plain hquote hbackslash hc _ ih =>
    obtain ⟨fuel, rfl⟩ := Nat.exists_eq_succ_of_ne_zero (Nat.ne_zero_of_lt hfuel)
    have hrest := ih (Nat.lt_of_succ_lt_succ hfuel)
    simp [parseChars, hquote, hbackslash, not_lt.mpr hc, hrest]
  | @escape e t s c he _ ih =>
    obtain ⟨fuel, rfl⟩ := Nat.exists_eq_succ_of_ne_zero (Nat.ne_zero_of_lt hfuel)
    simp only [List.length_cons, List.length_append] at hfuel
    have hrest : parseChars fuel (t ++ '"' :: r) = some (s, r) := ih (by omega)
    have hx := unescape_append he (t ++ '"' :: r)
    simp [parseChars, hx, hrest]
  | rawControl hstyle => cases hstyle
  | lone hstyle => cases hstyle

/-- Without leaked tokens, a string stands between plain quotes. -/
lemma exists_of_stringLit {style : Style} (hleak : style.leakedQuotes = false)
    (hend : style.loneBeforeToken = false) {t s : Str} (h : StringLit style t s) :
    ∃ u, t = '"' :: (u ++ ['"']) ∧ Chars style u s ∧ style.content s := by
  cases h with
  | quoted hq ht hq' hs =>
    cases hq with
    | leaked hstyle => exact absurd hstyle (by simp [hleak])
    | plain =>
      cases hq' with
      | leaked hstyle => exact absurd hstyle (by simp [hleak])
      | plain => exact ⟨_, rfl, ht, hs⟩
  | loneEnd hstyle => exact absurd hstyle (by simp [hend])

lemma stringLit_strict {t k : Str} :
    StringLit .strict t k ↔ ∃ u, t = '"' :: (u ++ ['"']) ∧ Chars .strict u k := by
  constructor
  · intro h
    obtain ⟨u, rfl, hu, -⟩ := exists_of_stringLit rfl rfl h
    exact ⟨u, rfl, hu⟩
  · rintro ⟨u, rfl, hu⟩
    exact .quoted .plain hu .plain trivial

/-- `parseString` reads the strict string literals. -/
lemma parseString_eq_some {s k r : Str} :
    parseString s = some (k, r) ↔ ∃ t, s = t ++ r ∧ StringLit .strict t k := by
  constructor
  · intro h
    obtain ⟨s₁, hs₁, hchars⟩ := Option.bind_eq_some_iff.mp h
    obtain rfl := expect_eq_some.mp hs₁
    obtain ⟨u, rfl, hu⟩ := exists_of_parseChars hchars
    exact ⟨'"' :: (u ++ ['"']), by simp, stringLit_strict.mpr ⟨u, rfl, hu⟩⟩
  · rintro ⟨t, rfl, ht⟩
    obtain ⟨u, rfl, hu⟩ := stringLit_strict.mp ht
    have hlen : u.length < (u ++ '"' :: r).length + 1 := by
      rw [List.length_append]
      omega
    have hquote : expect '"' ('"' :: (u ++ ['"']) ++ r) = some (u ++ '"' :: r) :=
      expect_eq_some.mpr (by simp)
    rw [parseString, hquote]
    exact parseChars_append hu hlen r

/-! ### Numbers -/

variable {number} {n : ℕ}

lemma isNumberChar_of_isNumberLiteral {lit : Str} (h : isNumberLiteral lit = true) :
    ∀ c ∈ lit, isNumberChar c = true := by
  simp only [isNumberLiteral, Bool.and_eq_true, List.all_eq_true] at h
  exact h.1.1

/-- A number literal starts with a digit or a minus sign. -/
lemma exists_of_isNumberLiteral {lit : Str} (h : isNumberLiteral lit = true) :
    ∃ c t, lit = c :: t ∧ (isDigit c = true ∨ c = '-') := by
  cases lit with
  | nil => cases h
  | cons c t =>
    refine ⟨c, t, rfl, ?_⟩
    by_cases hc : c = '-'
    · exact .inr hc
    · left
      by_contra hdigit
      simp [isNumberLiteral, hc, hdigit] at h

lemma parseNumber_append {lit rest : Str} {x : N} (hlit : isNumberLiteral lit = true)
    (hx : number lit = some x) (hrest : ∀ c ∈ rest.head?, isNumberChar c = false) :
    parseNumber number (lit ++ rest) = some (.number x, rest) := by
  have hchars := isNumberChar_of_isNumberLiteral hlit
  have htake : rest.takeWhile isNumberChar = [] := by
    cases rest with
    | nil => rfl
    | cons c rest => exact List.takeWhile_cons_of_neg (by simp [hrest c rfl])
  have hdrop : rest.dropWhile isNumberChar = rest := by
    cases rest with
    | nil => rfl
    | cons c rest => exact List.dropWhile_cons_of_neg (by simp [hrest c rfl])
  rw [parseNumber, List.takeWhile_append_of_pos hchars, List.dropWhile_append_of_pos hchars,
    htake, hdrop, List.append_nil]
  simp [hlit, hx]

lemma exists_of_parseNumber {s r : Str} {v : Value N} (h : parseNumber number s = some (v, r)) :
    ∃ lit x, s = lit ++ r ∧ v = .number x ∧ isNumberLiteral lit = true ∧ number lit = some x := by
  rw [parseNumber] at h
  split_ifs at h with hlit
  obtain ⟨x, hx, heq⟩ := Option.map_eq_some_iff.mp h
  obtain ⟨rfl, rfl⟩ := Prod.mk.inj heq
  exact ⟨_, x, List.takeWhile_append_dropWhile.symm, rfl, hlit, hx⟩

/-! ### Values -/

lemma exists_of_literal {lit s r : Str} {v v' : Value N}
    (h : (stripPrefix s lit).map (fun s => (v, s)) = some (v', r)) : s = lit ++ r ∧ v = v' := by
  obtain ⟨s', hs, heq⟩ := Option.map_eq_some_iff.mp h
  obtain ⟨rfl, rfl⟩ := Prod.mk.inj heq
  exact ⟨stripPrefix_eq_some.mp hs, rfl⟩

lemma exists_of_skipSpace {s r : Str} (h : skipSpace s = r) : ∃ w, Space w ∧ s = w ++ r := by
  subst h
  exact exists_skipSpace s

/-- What the parser accepts is a strict rendering. -/
lemma renders_of_parse (fuel : ℕ) :
    (∀ n s v r, parseValue number fuel n s = some (v, r) →
      ∃ t, s = t ++ r ∧ Renders .strict number n t (.value v)) ∧
    (∀ n s vs r, parseElements number fuel n s = some (vs, r) →
      ∃ t, s = t ++ ']' :: r ∧ Renders .strict number n t (.elements vs)) ∧
    ∀ n s ms r, parseMembers number fuel n s = some (ms, r) →
      ∃ t, s = t ++ '}' :: r ∧ Renders .strict number n t (.members ms) := by
  induction fuel with
  | zero =>
    refine ⟨?_, ?_, ?_⟩
    all_goals
      intro n s v r h
      cases h
  | succ fuel ih =>
    obtain ⟨ihValue, ihElements, ihMembers⟩ := ih
    refine ⟨?_, ?_, ?_⟩
    · intro n s v r h
      unfold parseValue at h
      split at h
      · obtain ⟨⟨k, r'⟩, hk, heq⟩ := Option.map_eq_some_iff.mp h
        obtain ⟨rfl, rfl⟩ := Prod.mk.inj heq
        obtain ⟨t, rfl, ht⟩ := parseString_eq_some.mp hk
        exact ⟨t, rfl, .string ht⟩
      · cases h
      · cases h
      · next n hhead =>
        obtain ⟨tail, rfl⟩ := List.head?_eq_some_iff.mp hhead
        split at h
        · next s' hs' =>
          obtain ⟨rfl, rfl⟩ := Prod.mk.inj (Option.some.inj h)
          obtain ⟨w, hw, hs⟩ := exists_of_skipSpace (expect_eq_some.mp hs')
          exact ⟨'[' :: (w ++ [']']), by simpa using hs, .emptyArray hw⟩
        · obtain ⟨⟨vs, r'⟩, hvs, heq⟩ := Option.map_eq_some_iff.mp h
          obtain ⟨rfl, rfl⟩ := Prod.mk.inj heq
          obtain ⟨t, hs, ht⟩ := ihElements _ _ _ _ hvs
          exact ⟨'[' :: (t ++ [']']), by simpa using hs, .array ht⟩
      · next n hhead =>
        obtain ⟨tail, rfl⟩ := List.head?_eq_some_iff.mp hhead
        split at h
        · next s' hs' =>
          obtain ⟨rfl, rfl⟩ := Prod.mk.inj (Option.some.inj h)
          obtain ⟨w, hw, hs⟩ := exists_of_skipSpace (expect_eq_some.mp hs')
          exact ⟨'{' :: (w ++ ['}']), by simpa using hs, .emptyObject hw⟩
        · obtain ⟨⟨ms, r'⟩, hms, heq⟩ := Option.map_eq_some_iff.mp h
          obtain ⟨rfl, rfl⟩ := Prod.mk.inj heq
          obtain ⟨t, hs, ht⟩ := ihMembers _ _ _ _ hms
          exact ⟨'{' :: (t ++ ['}']), by simpa using hs, .object ht⟩
      · obtain ⟨rfl, rfl⟩ := exists_of_literal h
        exact ⟨_, rfl, .null⟩
      · obtain ⟨rfl, rfl⟩ := exists_of_literal h
        exact ⟨_, rfl, .true⟩
      · obtain ⟨rfl, rfl⟩ := exists_of_literal h
        exact ⟨_, rfl, .false⟩
      · obtain ⟨lit, x, rfl, rfl, hlit, hx⟩ := exists_of_parseNumber h
        exact ⟨lit, rfl, .number hlit hx⟩
    · intro n s vs r h
      rw [parseElements] at h
      obtain ⟨⟨v, s₁⟩, hv, hrest⟩ := Option.bind_eq_some_iff.mp h
      obtain ⟨t, hs, ht⟩ := ihValue _ _ _ _ hv
      obtain ⟨w, hw, rfl⟩ := exists_of_skipSpace hs
      simp only at hrest
      split at hrest
      · next s₂ hs₂ =>
        obtain ⟨w', hw', rfl⟩ := exists_of_skipSpace (expect_eq_some.mp hs₂)
        obtain ⟨⟨vs', s₃⟩, hvs, heq⟩ := Option.bind_eq_some_iff.mp hrest
        obtain ⟨rfl, rfl⟩ := Prod.mk.inj (Option.some.inj heq)
        obtain ⟨ts, rfl, hts⟩ := ihElements _ _ _ _ hvs
        exact ⟨w ++ (t ++ (w' ++ ',' :: ts)), by simp, .elements hw ht hw' hts⟩
      · obtain ⟨s₂, hs₂, heq⟩ := Option.bind_eq_some_iff.mp hrest
        obtain ⟨rfl, rfl⟩ := Prod.mk.inj (Option.some.inj heq)
        obtain ⟨w', hw', rfl⟩ := exists_of_skipSpace (expect_eq_some.mp hs₂)
        exact ⟨w ++ (t ++ w'), by simp, .element hw ht hw'⟩
    · intro n s ms r h
      rw [parseMembers] at h
      obtain ⟨⟨k, s₁⟩, hk, hafter⟩ := Option.bind_eq_some_iff.mp h
      obtain ⟨key, hs, hkey⟩ := parseString_eq_some.mp hk
      obtain ⟨w, hw, rfl⟩ := exists_of_skipSpace hs
      obtain ⟨s₂, hcolon, hvalue⟩ := Option.bind_eq_some_iff.mp hafter
      obtain ⟨w₁, hw₁, rfl⟩ := exists_of_skipSpace (expect_eq_some.mp hcolon)
      obtain ⟨⟨v, s₃⟩, hv, hrest⟩ := Option.bind_eq_some_iff.mp hvalue
      obtain ⟨t, hs₂, ht⟩ := ihValue _ _ _ _ hv
      obtain ⟨w', hw', rfl⟩ := exists_of_skipSpace hs₂
      have hsep : KeySep .strict (key ++ w₁ ++ [':']) k := .quoted hkey hw₁
      simp only at hrest
      split at hrest
      · next s₄ hs₄ =>
        obtain ⟨w'', hw'', rfl⟩ := exists_of_skipSpace (expect_eq_some.mp hs₄)
        obtain ⟨⟨ms', s₅⟩, hms, heq⟩ := Option.bind_eq_some_iff.mp hrest
        obtain ⟨rfl, rfl⟩ := Prod.mk.inj (Option.some.inj heq)
        obtain ⟨ts, rfl, hts⟩ := ihMembers _ _ _ _ hms
        exact ⟨_, by simp, .members hw hsep hw' ht hw'' hts⟩
      · obtain ⟨s₄, hs₄, heq⟩ := Option.bind_eq_some_iff.mp hrest
        obtain ⟨rfl, rfl⟩ := Prod.mk.inj (Option.some.inj heq)
        obtain ⟨w'', hw'', rfl⟩ := exists_of_skipSpace (expect_eq_some.mp hs₄)
        exact ⟨_, by simp, .member hw hsep hw' ht hw''⟩

lemma ne_of_numberStart {c d : Char} (hc : isDigit c = true ∨ c = '-')
    (hd : ¬ (isDigit d = true ∨ d = '-')) : c ≠ d := by
  rintro rfl
  exact hd hc

/-- How a strict rendering of a value starts. -/
lemma exists_of_renders {t : Str} {v : Value N} (h : Renders .strict number n t (.value v)) :
    ∃ c t', t = c :: t' ∧ isJsonSpace c = false ∧ c ≠ ']' := by
  cases h with
  | null => exact ⟨_, _, rfl, by decide, by decide⟩
  | true => exact ⟨_, _, rfl, by decide, by decide⟩
  | false => exact ⟨_, _, rfl, by decide, by decide⟩
  | number hlit hx =>
    obtain ⟨c, t', rfl, hc⟩ := exists_of_isNumberLiteral hlit
    refine ⟨c, t', rfl, ?_, ne_of_numberStart hc (by decide)⟩
    simp only [isJsonSpace, Bool.or_eq_false_iff, beq_eq_false_iff_ne]
    exact ⟨⟨⟨ne_of_numberStart hc (by decide), ne_of_numberStart hc (by decide)⟩,
      ne_of_numberStart hc (by decide)⟩, ne_of_numberStart hc (by decide)⟩
  | string h =>
    obtain ⟨u, rfl, -⟩ := stringLit_strict.mp h
    exact ⟨_, _, rfl, by decide, by decide⟩
  | emptyArray hw => exact ⟨_, _, rfl, by decide, by decide⟩
  | array h => exact ⟨_, _, rfl, by decide, by decide⟩
  | emptyObject hw => exact ⟨_, _, rfl, by decide, by decide⟩
  | object h => exact ⟨_, _, rfl, by decide, by decide⟩

lemma parseValue_number {c : Char} (hc : isDigit c = true ∨ c = '-') (fuel n : ℕ) (s : Str) :
    parseValue number (fuel + 1) n (c :: s) = parseNumber number (c :: s) := by
  unfold parseValue
  split
  case h_9 => rfl
  all_goals
    next hhead => exact absurd (Option.some.inj hhead) (ne_of_numberStart hc (by decide))

lemma isNumberChar_of_isJsonSpace {c : Char} (h : isJsonSpace c = true) :
    isNumberChar c = false := by
  simp only [isJsonSpace, Bool.or_eq_true, beq_iff_eq] at h
  rcases h with ((rfl | rfl) | rfl) | rfl <;> decide

lemma not_isNumberChar_head {w s : Str} {c : Char} (hw : Space w) (hc : isNumberChar c = false) :
    ∀ d ∈ (w ++ c :: s).head?, isNumberChar d = false := by
  intro d hd
  rcases head_of_space hw d hd with h | rfl
  · exact isNumberChar_of_isJsonSpace h
  · exact hc

/-- The parser reads the text as the node, in front of whatever can follow. -/
def Node.ReadFrom (number : Str → Option N) (n : ℕ) (t : Str) : Node N → Prop
  | .value v     => ∀ fuel rest, t.length ≤ fuel → (∀ c ∈ rest.head?, isNumberChar c = false) →
    parseValue number (fuel + 1) n (t ++ rest) = some (v, rest)
  | .elements vs => ∀ fuel rest, t.length < fuel →
    parseElements number (fuel + 1) n (t ++ ']' :: rest) = some (vs, rest)
  | .members ms  => ∀ fuel rest, t.length < fuel →
    parseMembers number (fuel + 1) n (t ++ '}' :: rest) = some (ms, rest)

section ReadFrom

variable {t : Str} {v : Value N} {vs : List (Value N)} {ms : List (Str × Value N)} {fuel : ℕ}

lemma parseValue_append (h : (Node.value v).ReadFrom number n t) (hfuel : t.length < fuel)
    {w : Str} {c : Char} (hw : Space w) (hc : isNumberChar c = false) (s : Str) :
    parseValue number fuel n (t ++ (w ++ c :: s)) = some (v, w ++ c :: s) := by
  obtain ⟨fuel, rfl⟩ := Nat.exists_eq_succ_of_ne_zero (Nat.ne_zero_of_lt hfuel)
  exact h fuel _ (Nat.le_of_lt_succ hfuel) (not_isNumberChar_head hw hc)

lemma parseElements_append (h : (Node.elements vs).ReadFrom number n t)
    (hfuel : t.length + 1 < fuel) (rest : Str) :
    parseElements number fuel n (t ++ ']' :: rest) = some (vs, rest) := by
  obtain ⟨fuel, rfl⟩ := Nat.exists_eq_succ_of_ne_zero (Nat.ne_zero_of_lt hfuel)
  exact h fuel rest (Nat.lt_of_succ_lt_succ hfuel)

lemma parseMembers_append (h : (Node.members ms).ReadFrom number n t)
    (hfuel : t.length + 1 < fuel) (rest : Str) :
    parseMembers number fuel n (t ++ '}' :: rest) = some (ms, rest) := by
  obtain ⟨fuel, rfl⟩ := Nat.exists_eq_succ_of_ne_zero (Nat.ne_zero_of_lt hfuel)
  exact h fuel rest (Nat.lt_of_succ_lt_succ hfuel)

end ReadFrom

/-- White space and how a value or a member starts. -/
lemma exists_of_renders_elements {t : Str} {vs : List (Value N)}
    (h : Renders .strict number n t (.elements vs)) :
    ∃ w c t', t = w ++ c :: t' ∧ Space w ∧ isJsonSpace c = false ∧ c ≠ ']' := by
  cases h with
  | element hw h hw' =>
    obtain ⟨c, t', rfl, hc⟩ := exists_of_renders h
    exact ⟨_, c, _, rfl, hw, hc⟩
  | elements hw h hw' hs =>
    obtain ⟨c, t', rfl, hc⟩ := exists_of_renders h
    exact ⟨_, c, _, rfl, hw, hc⟩

lemma keySep_strict {t k : Str} (h : KeySep .strict t k) :
    ∃ key w, t = key ++ w ++ [':'] ∧ StringLit .strict key k ∧ Space w := by
  cases h with
  | quoted hkey hw => exact ⟨_, _, rfl, hkey, hw⟩
  | bare hstyle => cases hstyle
  | equals hstyle => cases hstyle

lemma exists_of_renders_members {t : Str} {ms : List (Str × Value N)}
    (h : Renders .strict number n t (.members ms)) : ∃ w t', t = w ++ '"' :: t' ∧ Space w := by
  cases h with
  | member hw hkey =>
    obtain ⟨key, w', rfl, hkey, -⟩ := keySep_strict hkey
    obtain ⟨u, rfl, -⟩ := stringLit_strict.mp hkey
    exact ⟨_, _, rfl, hw⟩
  | members hw hkey =>
    obtain ⟨key, w', rfl, hkey, -⟩ := keySep_strict hkey
    obtain ⟨u, rfl, -⟩ := stringLit_strict.mp hkey
    exact ⟨_, _, rfl, hw⟩

lemma skipSpace_value {w t : Str} {v : Value N} (hw : Space w)
    (h : Renders .strict number n t (.value v)) (r : Str) : skipSpace (w ++ (t ++ r)) = t ++ r := by
  obtain ⟨c, t', rfl, hc, -⟩ := exists_of_renders h
  exact skipSpace_cons hw hc

/-- The parser reads a key and what separates it from its value. -/
lemma parseKey_append {w key k : Str} (hw : Space w) (hkey : KeySep .strict key k) (r : Str) :
    ∃ s, parseString (skipSpace (w ++ (key ++ r))) = some (k, s) ∧ expect ':' (skipSpace s) = some r
    := by
  obtain ⟨t, w', rfl, ht, hw'⟩ := keySep_strict hkey
  refine ⟨w' ++ ':' :: r, ?_, ?_⟩
  · have hskip : skipSpace (w ++ (t ++ w' ++ [':'] ++ r)) = t ++ (w' ++ ':' :: r) := by
      obtain ⟨u, rfl, -⟩ := stringLit_strict.mp ht
      simpa using skipSpace_cons hw (by decide)
    exact parseString_eq_some.mpr ⟨t, hskip, ht⟩
  · rw [skipSpace_cons hw' (by decide)]
    exact expect_cons_self ':' r

/-- The parser accepts every strict rendering. -/
lemma readFrom_of_renders {t : Str} {node : Node N} (h : Renders .strict number n t node) :
    node.ReadFrom number n t := by
  induction h with
  | null => exact fun fuel rest _ _ => rfl
  | true => exact fun fuel rest _ _ => rfl
  | false => exact fun fuel rest _ _ => rfl
  | number hlit hx =>
    intro fuel rest hfuel hrest
    obtain ⟨c, t, rfl, hc⟩ := exists_of_isNumberLiteral hlit
    rw [List.cons_append, parseValue_number hc]
    exact parseNumber_append hlit hx hrest
  | @string n t s h =>
    intro fuel rest hfuel _
    have hread : parseString (t ++ rest) = some (s, rest) := parseString_eq_some.mpr ⟨t, rfl, h⟩
    obtain ⟨u, rfl, -⟩ := stringLit_strict.mp h
    simp only [List.append_assoc, List.cons_append, List.nil_append] at hread ⊢
    simp [parseValue, hread]
  | @emptyArray n w hw =>
    intro fuel rest hfuel _
    have hskip : skipSpace (w ++ ']' :: rest) = ']' :: rest := skipSpace_cons hw (by decide)
    simp [parseValue, hskip]
  | @array n t vs h ih =>
    intro fuel rest hfuel _
    have hlen : t.length + 1 < fuel := by simpa using hfuel
    have hread := parseElements_append ih hlen rest
    obtain ⟨w, c, t', rfl, hw, hspace, hclose⟩ := exists_of_renders_elements h
    have hskip : skipSpace (w ++ c :: (t' ++ ']' :: rest)) = c :: (t' ++ ']' :: rest) :=
      skipSpace_cons hw hspace
    simp only [List.append_assoc, List.cons_append] at hread
    simp [parseValue, hskip, expect_eq_none hclose, hread]
  | @emptyObject n w hw =>
    intro fuel rest hfuel _
    have hskip : skipSpace (w ++ '}' :: rest) = '}' :: rest := skipSpace_cons hw (by decide)
    simp [parseValue, hskip]
  | @object n t ms h ih =>
    intro fuel rest hfuel _
    have hlen : t.length + 1 < fuel := by simpa using hfuel
    have hread := parseMembers_append ih hlen rest
    obtain ⟨w, t', rfl, hw⟩ := exists_of_renders_members h
    have hskip : skipSpace (w ++ '"' :: (t' ++ '}' :: rest)) = '"' :: (t' ++ '}' :: rest) :=
      skipSpace_cons hw (by decide)
    simp only [List.append_assoc, List.cons_append] at hread
    simp [parseValue, hskip, expect, hread]
  | @element n w t w' v hw h hw' ih =>
    intro fuel rest hfuel
    simp only [List.length_append] at hfuel
    have hskip := skipSpace_value hw h (w' ++ ']' :: rest)
    have hread := parseValue_append ih (by omega : t.length < fuel) hw' (c := ']') (by decide) rest
    have hskip' : skipSpace (w' ++ ']' :: rest) = ']' :: rest := skipSpace_cons hw' (by decide)
    have hcomma : expect ',' (']' :: rest) = none := expect_eq_none (by decide)
    simp [parseElements, hskip, hread, hskip', hcomma]
  | @elements n w t w' ts v vs hw h hw' hs ih ihs =>
    intro fuel rest hfuel
    simp only [List.length_append, List.length_cons] at hfuel
    have hskip := skipSpace_value hw h (w' ++ ',' :: (ts ++ ']' :: rest))
    have hread := parseValue_append ih (by omega : t.length < fuel) hw' (c := ',') (by decide)
      (ts ++ ']' :: rest)
    have hskip' : skipSpace (w' ++ ',' :: (ts ++ ']' :: rest)) = ',' :: (ts ++ ']' :: rest) :=
      skipSpace_cons hw' (by decide)
    have hreads := parseElements_append ihs (by omega : ts.length + 1 < fuel) rest
    simp [parseElements, hskip, hread, hskip', hreads]
  | @member n w key k w' t w'' v hw hkey hw' h hw'' ih =>
    intro fuel rest hfuel
    simp only [List.length_append] at hfuel
    obtain ⟨s, hk, hcolon⟩ := parseKey_append hw hkey (w' ++ (t ++ (w'' ++ '}' :: rest)))
    have hskip := skipSpace_value hw' h (w'' ++ '}' :: rest)
    have hread := parseValue_append ih (by omega : t.length < fuel) hw'' (c := '}') (by decide) rest
    have hskip' : skipSpace (w'' ++ '}' :: rest) = '}' :: rest := skipSpace_cons hw'' (by decide)
    have hcomma : expect ',' ('}' :: rest) = none := expect_eq_none (by decide)
    simp only [List.append_assoc]
    simp [parseMembers, hk, hcolon, hskip, hread, hskip', hcomma]
  | @members n w key k w' t w'' ts v ms hw hkey hw' h hw'' hs ih ihs =>
    intro fuel rest hfuel
    simp only [List.length_append, List.length_cons] at hfuel
    obtain ⟨s, hk, hcolon⟩ :=
      parseKey_append hw hkey (w' ++ (t ++ (w'' ++ ',' :: (ts ++ '}' :: rest))))
    have hskip := skipSpace_value hw' h (w'' ++ ',' :: (ts ++ '}' :: rest))
    have hread := parseValue_append ih (by omega : t.length < fuel) hw'' (c := ',') (by decide)
      (ts ++ '}' :: rest)
    have hskip' : skipSpace (w'' ++ ',' :: (ts ++ '}' :: rest)) = ',' :: (ts ++ '}' :: rest) :=
      skipSpace_cons hw'' (by decide)
    have hreads := parseMembers_append ihs (by omega : ts.length + 1 < fuel) rest
    simp only [List.append_assoc, List.cons_append]
    simp [parseMembers, hk, hcolon, hskip, hread, hskip', hreads]

/-- The parser accepts a text as a value exactly where the text is a strict rendering of it. -/
lemma rendering_strict_iff {s : Str} {v : Value N} :
    Rendering .strict number s v ↔ fromStr number s = some v := by
  constructor
  · rintro ⟨w, t, w', hw, ht, hw', rfl⟩
    have hrest : ∀ c ∈ w'.head?, isNumberChar c = false :=
      fun c hc => isNumberChar_of_isJsonSpace (hw' c (List.mem_of_mem_head? hc))
    have hlen : t.length ≤ (w ++ (t ++ w')).length := by
      simp only [List.length_append]
      omega
    have hread := readFrom_of_renders ht _ w' hlen hrest
    rw [fromStr, skipSpace_value hw ht, hread]
    simp [skipSpace_eq_nil.mpr hw']
  · intro h
    obtain ⟨⟨v', r⟩, hread, hend⟩ := Option.bind_eq_some_iff.mp h
    obtain ⟨t, hs, ht⟩ := (renders_of_parse _).1 _ _ _ _ hread
    obtain ⟨w, hw, rfl⟩ := exists_of_skipSpace hs
    simp only at hend
    split_ifs at hend with hr
    cases hend
    exact ⟨w, t, r, hw, ht, skipSpace_eq_nil.mp hr, rfl⟩

end ModelApi.Gemma
