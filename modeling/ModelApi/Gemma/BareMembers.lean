import ModelApi.Gemma.BareValue

/-!
# Several bare values

Arguments with several keys and values without quotes, where nobody can tell a comma of a value from
one behind it. They are refused where a comma can be seen outside of all brackets.
-/

namespace ModelApi.Gemma

open Lib Lib.Str

variable {N : Type} {number : Str → Option N} {json : SerdeJson N}

/-! ### The arguments -/

def IsLiteral (v : Str) : Prop := v = "null".toList ∨ v = "true".toList ∨ v = "false".toList

/-- One of the literals, with white space behind it. -/
def SpacedLiteral (v : Str) : Prop := ∃ lit w : Str, v = lit ++ w ∧ IsLiteral lit ∧ Space w

/-- A letter; outside ASCII any character counts. -/
def BareHead (c : Char) : Prop := isAsciiAlphabetic c = true ∨ ¬ isAscii c

/-- A value that starts with a letter, without a comma, a colon, a `=`, a quote or a backslash. -/
structure BareWord (v : Str) : Prop where
  head : ∃ c t, v = c :: t ∧ BareHead c
  plain : ∀ c ∈ v, c ∉ [',', ':', '=', '"', '\\']

/-- `{k1: v1, …, kn: vn}` -/
def bareBody (members : List (Str × Str)) : Str :=
  '{' :: (", ".toList.intercalate (members.map fun m => m.1 ++ ": ".toList ++ m.2) ++ ['}'])

/-- The members behind the first one. -/
def siblings (members : List (Str × Str)) : Str :=
  members.flatMap fun m => ',' :: ' ' :: (m.1 ++ ':' :: ' ' :: m.2)

lemma bareBody_cons (m : Str × Str) (ms : List (Str × Str)) :
    bareBody (m :: ms) = '{' :: (m.1 ++ ':' :: ' ' :: (m.2 ++ siblings ms ++ ['}'])) := by
  have hjoin : ∀ (s : Str) (ms : List (Str × Str)),
      ", ".toList.intercalate (s :: ms.map fun m => m.1 ++ ": ".toList ++ m.2) =
        s ++ siblings ms := by
    intro s ms
    induction ms generalizing s with
    | nil => simp [siblings]
    | cons m ms ih =>
      rw [List.map_cons, List.intercalate_cons_cons, ih]
      simp [siblings]
  rw [bareBody, List.map_cons, hjoin]
  simp

def quoteMember (m : Str × Str) : Str × Str := ('"' :: (m.1 ++ ['"']), m.2)

/-- The object with the keys quoted. -/
def quotedBody (m : Str × Str) (ms : List (Str × Str)) : Str :=
  singleMember m.1 (' ' :: (m.2 ++ siblings (ms.map quoteMember)))

def bytesMember (m : Str × Str) : Str × Str := (m.1, m.2.bytes)

/-- How the brackets change the depth. -/
def bracketStep (depth : Int32) (c : Char) : Int32 :=
  if c = '[' ∨ c = '{' then depth + 1
  else if c = ']' ∨ c = '}' then depth - 1
  else depth

/-- The depth behind the values of some members. -/
def depthBehind (depth : Int32) (ms : List (Str × Str)) : Int32 :=
  ms.foldl (fun depth m => m.2.foldl bracketStep depth) depth

namespace BareWord

variable {v : Str}

lemma not_mem (h : BareWord v) {c : Char} (hc : c ∈ [',', ':', '=', '"', '\\']) : c ∉ v :=
  fun hmem => h.plain c hmem hc

lemma keyFree (h : BareWord v) : KeyFree v := by
  rintro front c back rfl hc ⟨ws, k, ws', sep, rest, rfl, -, -, hsep⟩
  have hmem : sep ∈ front ++ c :: (ws ++ (k ++ (ws' ++ sep :: rest))) := by simp
  rcases hsep with rfl | rfl
  · exact h.not_mem (by decide) hmem
  · exact h.not_mem (by decide) hmem

lemma exists_bytes (h : BareWord v) :
    ∃ c t, v.bytes = c :: t ∧ BareHead c ∧ isWhitespace c = false := by
  obtain ⟨⟨c, t, rfl, hc⟩, -⟩ := h
  by_cases hascii : isAscii c
  · have hident : isIdentByte c = true := by
      have hletter := hc.resolve_right (not_not_intro hascii)
      simp [isIdentByte, isAsciiAlphanumeric, hletter]
    exact ⟨c, bytes t, bytes_cons_of_isAscii hascii t, hc, isWhitespace_of_isIdentByte hident⟩
  · obtain ⟨lead, conts, henc, hlead, -⟩ := encodeChar_of_not_isAscii hascii
    refine ⟨lead, conts ++ bytes t, by rw [bytes_cons, henc, List.cons_append], .inr ?_,
      not_isWhitespace_lead hlead⟩
    rw [isAscii]
    omega

lemma bytes (h : BareWord v) : BareWord v.bytes := by
  obtain ⟨c, t, hv, hc, -⟩ := h.exists_bytes
  refine ⟨⟨c, t, hv, hc⟩, fun d hd hmem => ?_⟩
  have hascii : ∀ d ∈ [',', ':', '=', '"', '\\'], isAscii d := by simp; decide
  exact h.plain d (mem_of_mem_bytes (hascii d hmem) hd) hmem

end BareWord

/-- The keys are identifiers, and the values are words. -/
def BareMembers (ms : List (Str × Str)) : Prop := ∀ m ∈ ms, IsIdent m.1 ∧ BareWord m.2

lemma BareMembers.bytes {ms : List (Str × Str)} (h : BareMembers ms) :
    BareMembers (ms.map bytesMember) := by
  intro _ hmem
  obtain ⟨m, hm, rfl⟩ := List.mem_map.mp hmem
  exact ⟨(h m hm).1, (h m hm).2.bytes⟩

/-! ### Their quoted keys -/

lemma bytes_siblings {ms : List (Str × Str)} (h : ∀ m ∈ ms, ∀ c ∈ m.1, isAscii c) (s : Str) :
    bytes (siblings ms ++ s) = siblings (ms.map bytesMember) ++ bytes s := by
  induction ms with
  | nil => rfl
  | cons m ms ih =>
    obtain ⟨hk, hms⟩ := List.forall_mem_cons.mp h
    have hcons :
        siblings (m :: ms) = ',' :: ' ' :: (m.1 ++ ':' :: ' ' :: (m.2 ++ siblings ms)) := by
      simp [siblings]
    have hcons' : siblings (bytesMember m :: ms.map bytesMember) =
        ',' :: ' ' :: (m.1 ++ ':' :: ' ' :: (m.2.bytes ++ siblings (ms.map bytesMember))) := by
      simp [siblings, bytesMember]
    rw [hcons, List.map_cons, hcons']
    simp only [List.cons_append, List.append_assoc]
    rw [bytes_cons_of_isAscii (by decide), bytes_cons_of_isAscii (by decide), bytes_append,
      bytes_of_isAscii hk, bytes_cons_of_isAscii (by decide), bytes_cons_of_isAscii (by decide),
      bytes_append, ih hms]

/-- A value is copied, and the keys behind it are quoted. -/
lemma quoteKeys_siblings {v : Str} (hv : BareWord v) {ms : List (Str × Str)} (h : BareMembers ms) :
    quoteKeys false false (v ++ (siblings ms ++ ['}'])) =
      v ++ (siblings (ms.map quoteMember) ++ ['}']) := by
  have hquote : '"' ∉ v := hv.not_mem (by decide)
  have hsame : quoteKeys false false v = v := quoteKeys_of_keyFree false hquote hv.keyFree (by simp)
  induction ms generalizing v with
  | nil =>
    have hclose := quoteKeys_append_mark false (c := '}') (by decide) (by decide) hquote []
    rw [hsame, quoteKeys_nil] at hclose
    simpa [siblings] using hclose
  | cons m ms ih =>
    obtain ⟨⟨hk, hm⟩, hms⟩ := List.forall_mem_cons.mp h
    have hcons : v ++ (siblings (m :: ms) ++ ['}']) =
        v ++ ',' :: ' ' :: (m.1 ++ [] ++ [':'] ++ ' ' :: (m.2 ++ (siblings ms ++ ['}']))) := by
      simp [siblings]
    have hquote' : '"' ∉ m.2 := hm.not_mem (by decide)
    rw [hcons, quoteKeys_append_mark false (by decide) (by decide) hquote, hsame,
      quoteKeys_space (by decide)]
    have hkey := quoteKeys_key hk space_nil (.inl rfl) (' ' :: (m.2 ++ (siblings ms ++ ['}'])))
    have hopen : opensKey ',' = true := rfl
    rw [hopen, hkey, quoteKeys_space (by decide), ih hm hms hquote'
      (quoteKeys_of_keyFree false hquote' hm.keyFree (by simp))]
    simp [siblings, quoteMember]

lemma quotedKeys_bareBody {m : Str × Str} {ms : List (Str × Str)} (h : BareMembers (m :: ms)) :
    quotedKeys (bareBody (m :: ms)) = quotedBody (bytesMember m) (ms.map bytesMember) := by
  obtain ⟨⟨hk, hm⟩, hms⟩ := List.forall_mem_cons.mp h
  have hbytes : bytes (bareBody (m :: ms)) = '{' :: (m.1 ++ [] ++ [':'] ++
      ' ' :: (m.2.bytes ++ (siblings (ms.map bytesMember) ++ ['}']))) := by
    rw [bareBody_cons, bytes_cons_of_isAscii (by decide), bytes_append,
      bytes_of_isAscii (isAscii_of_isIdent hk), bytes_cons_of_isAscii (by decide),
      bytes_cons_of_isAscii (by decide), List.append_assoc, bytes_append,
      bytes_siblings fun m hm => isAscii_of_isIdent (hms m hm).1]
    simp [bytes_of_isAscii (s := ['}']) (by simp; decide)]
  rw [quotedKeys, hbytes, quoteKeys_open (.inl rfl), quoteKeys_key hk space_nil (.inl rfl),
    quoteKeys_space (by decide), quoteKeys_siblings hm.bytes (BareMembers.bytes hms)]
  simp [quotedBody, singleMember, bytesMember]

lemma bytes_quotedSiblings {ms : List (Str × Str)} (h : BareMembers ms) (s : Str) :
    bytes (siblings (ms.map quoteMember) ++ s) =
      siblings ((ms.map bytesMember).map quoteMember) ++ bytes s := by
  have hascii : ∀ q ∈ ms.map quoteMember, ∀ c ∈ q.1, isAscii c := by
    intro q hq c hc
    obtain ⟨m, hm, rfl⟩ := List.mem_map.mp hq
    simp only [quoteMember, List.mem_cons, List.mem_append, List.not_mem_nil, or_false] at hc
    rcases hc with rfl | hc | rfl
    · decide
    · exact isAscii_of_isIdent (h m hm).1 c hc
    · decide
  have hswap : (ms.map quoteMember).map bytesMember = (ms.map bytesMember).map quoteMember := by
    rw [List.map_map, List.map_map]
    rfl
  rw [bytes_siblings hascii, hswap]

lemma bytes_quotedBody {m : Str × Str} {ms : List (Str × Str)} (h : BareMembers (m :: ms)) :
    bytes (quotedBody m ms) = quotedBody (bytesMember m) (ms.map bytesMember) := by
  obtain ⟨⟨hk, -⟩, hms⟩ := List.forall_mem_cons.mp h
  rw [quotedBody, quotedBody, singleMember, singleMember, List.cons_append,
    bytes_cons_of_isAscii (by decide), bytes_cons_of_isAscii (by decide), bytes_append,
    bytes_of_isAscii (isAscii_of_isIdent hk), bytes_cons_of_isAscii (by decide),
    bytes_cons_of_isAscii (by decide), bytes_cons_of_isAscii (by decide), List.append_assoc,
    bytes_append, bytes_quotedSiblings hms]
  simp [bytesMember, bytes_of_isAscii (s := ['}']) (by simp; decide)]

/-! ### Which of them are JSON -/

lemma IsLiteral.not_mem {lit : Str} (h : IsLiteral lit) {c : Char} (hc : isIdentByte c = false) :
    c ∉ lit := by
  have hident : ∀ d ∈ lit, isIdentByte d = true := by
    rcases h with rfl | rfl | rfl <;> simp <;> decide
  intro hmem
  rw [hident c hmem] at hc
  cases hc

lemma isAsciiAlphabetic_of_isDigit {c : Char} (h : isDigit c = true) :
    isAsciiAlphabetic c = false := by
  simp only [isDigit, Bool.and_eq_true, decide_eq_true_eq] at h
  have hle : c.toNat ≤ 57 := h.2
  simp only [isAsciiAlphabetic, Bool.or_eq_false_iff, Bool.and_eq_false_iff,
    decide_eq_false_iff_not]
  constructor
  · left
    intro hA
    have hge : 65 ≤ c.toNat := hA
    omega
  · left
    intro ha
    have hge : 97 ≤ c.toNat := ha
    omega

/-- JSON that starts with a letter is a literal. -/
lemma isLiteral_of_renders {n : ℕ} {c : Char} {t : Str} {v : Value N} (hc : BareHead c)
    (h : Renders .strict number n (c :: t) (.value v)) : IsLiteral (c :: t) := by
  have hne : ∀ d, isAsciiAlphabetic d = false → isAscii d → c ≠ d := by
    rintro d halpha hascii rfl
    rcases hc with hc | hc
    · rw [hc] at halpha
      cases halpha
    · exact hc hascii
  generalize hs : c :: t = s at h
  cases h with
  | null => exact .inl rfl
  | true => exact .inr (.inl rfl)
  | false => exact .inr (.inr rfl)
  | number hlit =>
    obtain ⟨d, t', rfl, hd⟩ := exists_of_isNumberLiteral hlit
    obtain ⟨rfl, -⟩ := List.cons.inj hs
    rcases hd with hd | rfl
    · refine absurd rfl (hne c ?_ (isAscii_of_isIdentByte (isIdentByte_of_isDigit hd)))
      exact isAsciiAlphabetic_of_isDigit hd
    · exact absurd rfl (hne '-' (by decide) (by decide))
  | string h =>
    obtain ⟨u, rfl, -⟩ := stringLit_strict.mp h
    exact absurd (List.cons.inj hs).1 (hne '"' (by decide) (by decide))
  | emptyArray | array => exact absurd (List.cons.inj hs).1 (hne '[' (by decide) (by decide))
  | emptyObject | object => exact absurd (List.cons.inj hs).1 (hne '{' (by decide) (by decide))

/-- What is behind a value starts with a comma or a brace. -/
lemma exists_siblings (ms : List (Str × Str)) :
    ∃ c r, siblings ms ++ ['}'] = c :: r ∧ isIdentByte c = false ∧ isJsonSpace c = false := by
  cases ms with
  | nil => exact ⟨'}', [], rfl, rfl, rfl⟩
  | cons m ms => exact ⟨',', _, rfl, rfl, rfl⟩

lemma isJsonSpace_of_bareHead {c : Char} (h : BareHead c) : isJsonSpace c = false := by
  by_contra hspace
  rw [Bool.not_eq_false] at hspace
  simp only [isJsonSpace, Bool.or_eq_true, beq_iff_eq] at hspace
  rcases hspace with ((rfl | rfl) | rfl) | rfl <;> revert h <;> unfold BareHead <;> decide

/-- A value that is read as JSON is a literal, up to something behind it. -/
lemma exists_of_parseValue {fuel n : ℕ} {v s r : Str} {x : Value N} {c : Char} (hv : BareWord v)
    (hc : isIdentByte c = false)
    (h : parseValue number fuel n (skipSpace (' ' :: (v ++ c :: s))) = some (x, r)) :
    ∃ lit w, v = lit ++ w ∧ IsLiteral lit ∧ r = w ++ c :: s := by
  obtain ⟨⟨d, t, rfl, hd⟩, -⟩ := hv
  have hskip : skipSpace (' ' :: (d :: t ++ c :: s)) = d :: t ++ c :: s :=
    skipSpace_cons (w := [' ']) (by simp [Space, isJsonSpace]) (isJsonSpace_of_bareHead hd)
  rw [hskip] at h
  obtain ⟨lit, hsplit, hlit⟩ := (renders_of_parse _).1 _ _ _ _ h
  obtain ⟨d', lit, rfl, -⟩ := exists_of_renders hlit
  obtain ⟨rfl, -⟩ := List.cons.inj hsplit
  have hliteral := isLiteral_of_renders hd hlit
  rcases List.append_eq_append_iff.mp hsplit with ⟨a, heq, hr⟩ | ⟨a, heq, hr⟩
  · cases a with
    | nil => exact ⟨d :: t, [], by simp, by simpa [heq] using hliteral, by simpa using hr.symm⟩
    | cons e a =>
      obtain ⟨rfl, -⟩ := List.cons.inj hr
      exact absurd (by rw [heq]; simp) (hliteral.not_mem hc)
  · exact ⟨_, a, heq, hliteral, hr⟩

/-- Of members that are read up to white space, the first value is a literal with white space behind
it, and the members behind it are read as well. -/
lemma spacedLiteral_step {fuel n : ℕ} {w : Str} (hw : Space w) {m : Str × Str}
    {ms : List (Str × Str)} (hk : IsIdent m.1) (hm : BareWord m.2) {ms' : List (Str × Value N)}
    {r : Str} (h : parseMembers number fuel n (w ++ '"' :: (m.1 ++ '"' :: ':' :: ' ' ::
      (m.2 ++ (siblings (ms.map quoteMember) ++ ['}'])))) = some (ms', r)) (hr : Space r) :
    SpacedLiteral m.2 ∧ ∀ m₂ ms₂, ms = m₂ :: ms₂ → ∃ fuel' ms'',
      parseMembers number fuel' n ([' '] ++ '"' :: (m₂.1 ++ '"' :: ':' :: ' ' ::
        (m₂.2 ++ (siblings (ms₂.map quoteMember) ++ ['}'])))) = some (ms'', r) := by
  obtain ⟨c, s, hbehind, hident, hspace⟩ := exists_siblings (ms.map quoteMember)
  cases fuel with
  | zero => cases h
  | succ fuel =>
    rw [parseMembers_key number fuel n hw (stringLit_of_isIdent hk), hbehind] at h
    obtain ⟨⟨x, r₁⟩, hvalue, hrest⟩ := Option.bind_eq_some_iff.mp h
    obtain ⟨lit, w', hv, hlit, rfl⟩ := exists_of_parseValue hm hident hvalue
    have hw' : Space w' := by
      by_contra hw'
      -- the value goes on with something that can only be the closing brace
      obtain ⟨w₁, hw₁, hsplit⟩ := exists_skipSpace w'
      cases hskip : skipSpace w' with
      | nil => exact hw' (skipSpace_eq_nil.mp hskip)
      | cons e b =>
        have he : isJsonSpace e = false := by
          have hdrop : w'.dropWhile isJsonSpace = e :: b := hskip
          have hhead := List.head?_dropWhile_not isJsonSpace w'
          rw [hdrop] at hhead
          exact hhead
        have hmem : e ∈ m.2 := by
          rw [hv, hsplit, hskip]
          simp
        have hread : skipSpace (w' ++ c :: s) = e :: (b ++ c :: s) := by
          rw [hsplit, hskip, List.append_assoc, List.cons_append, skipSpace_cons hw₁ he]
        have hcomma : e ≠ ',' := by
          rintro rfl
          exact hm.not_mem (by decide) hmem
        simp only [hread, expect_eq_none hcomma] at hrest
        obtain ⟨r₂, hr₂, heq⟩ := Option.map_eq_some_iff.mp hrest
        obtain ⟨-, rfl⟩ := Prod.mk.inj heq
        obtain ⟨-, rfl⟩ := List.cons.inj (expect_eq_some.mp hr₂)
        rw [hr c (by simp)] at hspace
        cases hspace
    refine ⟨⟨lit, w', hv, hlit, hw'⟩, ?_⟩
    rintro m₂ ms₂ rfl
    have hread : skipSpace (w' ++ c :: s) = c :: s := skipSpace_cons hw' hspace
    have hcons : c :: s = ',' :: ([' '] ++ '"' :: (m₂.1 ++ '"' :: ':' :: ' ' ::
        (m₂.2 ++ (siblings (ms₂.map quoteMember) ++ ['}'])))) := by
      rw [← hbehind]
      simp [siblings, quoteMember]
    obtain ⟨rfl, rfl⟩ := List.cons.inj hcons
    simp only [hread, expect_cons_self] at hrest
    obtain ⟨p, hp, heq⟩ := Option.map_eq_some_iff.mp hrest
    obtain ⟨-, rfl⟩ := Prod.mk.inj heq
    exact ⟨fuel, p.1, hp⟩

lemma spacedLiteral_of_parseMembers {fuel n : ℕ} {w : Str} (hw : Space w) {m : Str × Str}
    {ms : List (Str × Str)} (h : BareMembers (m :: ms)) {ms' : List (Str × Value N)} {r : Str}
    (hparse : parseMembers number fuel n (w ++ '"' :: (m.1 ++ '"' :: ':' :: ' ' ::
      (m.2 ++ (siblings (ms.map quoteMember) ++ ['}'])))) = some (ms', r)) (hr : Space r) :
    ∀ m' ∈ m :: ms, SpacedLiteral m'.2 := by
  induction ms generalizing fuel w m ms' with
  | nil =>
    obtain ⟨⟨hk, hm⟩, -⟩ := List.forall_mem_cons.mp h
    exact List.forall_mem_singleton.mpr (spacedLiteral_step hw hk hm hparse hr).1
  | cons m₂ ms ih =>
    obtain ⟨⟨hk, hm⟩, hms⟩ := List.forall_mem_cons.mp h
    obtain ⟨hfirst, hnext⟩ := spacedLiteral_step hw hk hm hparse hr
    obtain ⟨fuel', ms'', hparse'⟩ := hnext m₂ ms rfl
    have hspace : Space [' '] := by simp [Space, isJsonSpace]
    exact List.forall_mem_cons.mpr ⟨hfirst, ih hspace hms hparse'⟩

lemma exists_renders_literal (number : Str → Option N) (n : ℕ) {lit : Str} (h : IsLiteral lit) :
    ∃ v, Renders .strict number n lit (.value v) := by
  rcases h with rfl | rfl | rfl
  · exact ⟨_, .null⟩
  · exact ⟨_, .true⟩
  · exact ⟨_, .false⟩

/-- Members whose values are literals are JSON. -/
lemma exists_renders_members (number : Str → Option N) (n : ℕ) {w : Str} (hw : Space w)
    {m : Str × Str} {ms : List (Str × Str)} (h : BareMembers (m :: ms))
    (hlit : ∀ m' ∈ m :: ms, SpacedLiteral m'.2) :
    ∃ members, Renders .strict number n (w ++ '"' :: (m.1 ++ '"' :: ':' :: ' ' ::
      (m.2 ++ siblings (ms.map quoteMember)))) (.members members) := by
  have hspace : Space [' '] := by simp [Space, isJsonSpace]
  induction ms generalizing w m with
  | nil =>
    obtain ⟨⟨hk, -⟩, -⟩ := List.forall_mem_cons.mp h
    obtain ⟨lit, w', hv, hliteral, hw'⟩ := List.forall_mem_singleton.mp hlit
    obtain ⟨v, hrenders⟩ := exists_renders_literal number n hliteral
    have hkey : KeySep .strict ('"' :: (m.1 ++ ['"']) ++ [] ++ [':']) m.1 :=
      .quoted (stringLit_of_isIdent hk) space_nil
    have hmember := Renders.member hw hkey hspace hrenders hw'
    exact ⟨_, by simpa [siblings, hv] using hmember⟩
  | cons m₂ ms ih =>
    obtain ⟨⟨hk, -⟩, hms⟩ := List.forall_mem_cons.mp h
    obtain ⟨⟨lit, w', hv, hliteral, hw'⟩, hlits⟩ := List.forall_mem_cons.mp hlit
    obtain ⟨v, hrenders⟩ := exists_renders_literal number n hliteral
    have hkey : KeySep .strict ('"' :: (m.1 ++ ['"']) ++ [] ++ [':']) m.1 :=
      .quoted (stringLit_of_isIdent hk) space_nil
    obtain ⟨members, hmembers⟩ := ih hspace hms hlits
    have hmembers' := Renders.members hw hkey hspace hrenders hw' hmembers
    exact ⟨_, by simpa [siblings, quoteMember, hv] using hmembers'⟩

/-- With its keys quoted, the object is JSON just if all values are literals. -/
lemma fromStr_quotedBody (number : Str → Option N) {m : Str × Str} {ms : List (Str × Str)}
    (h : BareMembers (m :: ms)) :
    (∃ v, fromStr number (quotedBody m ms) = some v) ↔ ∀ m' ∈ m :: ms, SpacedLiteral m'.2 := by
  constructor
  · rintro ⟨v, hv⟩
    rw [quotedBody, singleMember, fromStr_object] at hv
    obtain ⟨⟨members, r⟩, hmembers, hend⟩ := Option.bind_eq_some_iff.mp hv
    simp only at hend
    split_ifs at hend with hr
    rw [List.cons_append, List.append_assoc] at hmembers
    exact spacedLiteral_of_parseMembers space_nil h hmembers (skipSpace_eq_nil.mp hr)
  · intro hlit
    obtain ⟨members, hmembers⟩ := exists_renders_members number 126 space_nil h hlit
    refine ⟨_, rendering_strict_iff.mp ⟨[], _, [], space_nil, .object hmembers, space_nil, ?_⟩⟩
    simp [quotedBody, singleMember]

lemma spacedLiteral_bytes {v : Str} : SpacedLiteral v.bytes ↔ SpacedLiteral v := by
  have hascii : ∀ {lit w : Str}, IsLiteral lit → Space w → ∀ c ∈ lit ++ w, isAscii c := by
    intro lit w hlit hw c hc
    rcases List.mem_append.mp hc with hc | hc
    · by_contra hascii
      have hident : isIdentByte c = false := by
        by_contra hident
        exact hascii (isAscii_of_isIdentByte (by simpa using hident))
      exact hlit.not_mem hident hc
    · exact (copied_of_isJsonSpace (hw c hc)).isAscii
  constructor
  · rintro ⟨lit, w, hv, hlit, hw⟩
    have hv' : v.bytes = (lit ++ w) ++ [] := by rw [hv, List.append_nil]
    obtain ⟨t, rfl, ht⟩ := exists_of_bytes_eq_append (hascii hlit hw) hv'
    cases t with
    | nil => exact ⟨lit, w, by simp, hlit, hw⟩
    | cons c t =>
      rw [bytes_cons, List.append_eq_nil_iff] at ht
      exact absurd ht.1 (encodeChar_ne_nil c)
  · rintro ⟨lit, w, rfl, hlit, hw⟩
    exact ⟨lit, w, bytes_of_isAscii (hascii hlit hw), hlit, hw⟩

/-! ### Where a comma can be seen -/

lemma foldl_bracketStep_bytes (depth : Int32) (v : Str) :
    v.bytes.foldl bracketStep depth = v.foldl bracketStep depth := by
  induction v generalizing depth with
  | nil => rfl
  | cons c v ih =>
    by_cases hascii : isAscii c
    · rw [bytes_cons_of_isAscii hascii, List.foldl_cons, List.foldl_cons, ih]
    · obtain ⟨lead, conts, henc, hlead, hconts⟩ := encodeChar_of_not_isAscii hascii
      have hstep : ∀ b : Char, 0x80 ≤ b.toNat → bracketStep depth b = depth := by
        intro b hb
        have hne : ∀ d : Char, isAscii d → b ≠ d := by
          rintro d hd rfl
          rw [isAscii] at hd
          omega
        simp [bracketStep, hne '[' (by decide), hne '{' (by decide), hne ']' (by decide),
          hne '}' (by decide)]
      have hkept : ∀ bs : Str, (∀ b ∈ bs, 0x80 ≤ b.toNat) → bs.foldl bracketStep depth = depth := by
        intro bs hbs
        induction bs with
        | nil => rfl
        | cons b bs ihbs =>
          obtain ⟨hb, hbs⟩ := List.forall_mem_cons.mp hbs
          rw [List.foldl_cons, hstep b hb, ihbs hbs]
      have hc : 0x80 ≤ c.toNat := by
        rw [isAscii] at hascii
        omega
      have hbytes : ∀ b ∈ encodeChar c, 0x80 ≤ b.toNat := by
        rw [henc]
        refine List.forall_mem_cons.mpr ⟨by omega, fun b hb => (hconts b hb).1⟩
      rw [bytes_cons, List.foldl_append, hkept _ hbytes, ih, List.foldl_cons, hstep c hc]

lemma depthBehind_bytes (depth : Int32) (ms : List (Str × Str)) :
    depthBehind depth (ms.map bytesMember) = depthBehind depth ms := by
  rw [depthBehind, depthBehind, List.foldl_map]
  simp only [bytesMember, foldl_bracketStep_bytes]

lemma topLevelComma_word {v : Str} (hcomma : ',' ∉ v) (hquote : '"' ∉ v) (depth : Int32) (s : Str) :
    topLevelComma depth false (v ++ s) = topLevelComma (v.foldl bracketStep depth) false s := by
  induction v generalizing depth with
  | nil => rfl
  | cons c v ih =>
    rw [List.mem_cons, not_or] at hcomma hquote
    have hc : c ≠ ',' := fun h => hcomma.1 h.symm
    have hq : c ≠ '"' := fun h => hquote.1 h.symm
    rw [List.cons_append, List.foldl_cons, ← ih hcomma.2 hquote.2, topLevelComma, bracketStep]
    simp only [hq, hc, if_false, false_and]
    split_ifs <;> rfl

lemma topLevelComma_key {k : Str} (hk : IsIdent k) (depth : Int32) (s : Str) :
    topLevelComma depth false ('"' :: (k ++ '"' :: s)) = topLevelComma depth false s := by
  have hstring : topLevelComma depth true (k ++ '"' :: s) = topLevelComma depth false s := by
    obtain ⟨-, hident⟩ := hk
    induction k with
    | nil => exact topLevelComma_true_cons (by decide) depth s
    | cons c k ih =>
      obtain ⟨hc, hident⟩ := List.forall_mem_cons.mp hident
      obtain ⟨hquote, hbackslash, -⟩ := plain_of_isIdentByte hc
      rw [List.cons_append, topLevelComma_true_cons hbackslash, decide_eq_true hquote, ih hident]
  rw [← hstring, topLevelComma]
  rfl

/-- A comma is seen where the brackets in front of it are closed. -/
lemma topLevelComma_siblings {ms : List (Str × Str)} (h : BareMembers ms) (depth : Int32) :
    topLevelComma depth false (siblings (ms.map quoteMember)) = true ↔
      ∃ i < ms.length, depthBehind depth (ms.take i) = 0 := by
  induction ms generalizing depth with
  | nil => simp [siblings, topLevelComma]
  | cons m ms ih =>
    obtain ⟨⟨hk, hm⟩, hms⟩ := List.forall_mem_cons.mp h
    have hcons : siblings ((m :: ms).map quoteMember) = ',' :: ([' '] ++ '"' :: (m.1 ++ '"' ::
        ([':', ' '] ++ (m.2 ++ siblings (ms.map quoteMember))))) := by
      simp [siblings, quoteMember]
    by_cases hdepth : depth = 0
    · have hseen : topLevelComma depth false (siblings ((m :: ms).map quoteMember)) = true := by
        rw [hcons, topLevelComma]
        simp [hdepth]
      exact ⟨fun _ => ⟨0, Nat.succ_pos _, hdepth⟩, fun _ => hseen⟩
    · have hcomma : ∀ s, topLevelComma depth false (',' :: s) = topLevelComma depth false s := by
        intro s
        simp [topLevelComma, hdepth]
      have hnext : topLevelComma depth false (siblings ((m :: ms).map quoteMember)) =
          topLevelComma (m.2.foldl bracketStep depth) false (siblings (ms.map quoteMember)) := by
        rw [hcons, hcomma, topLevelComma_word (by decide) (by decide), topLevelComma_key hk,
          topLevelComma_word (by decide) (by decide),
          topLevelComma_word (hm.not_mem (by decide)) (hm.not_mem (by decide))]
        rfl
      rw [hnext, ih hms]
      constructor
      · rintro ⟨i, hi, h⟩
        exact ⟨i + 1, Nat.succ_lt_succ hi, h⟩
      · rintro ⟨i, hi, h⟩
        cases i with
        | zero => exact absurd h hdepth
        | succ i => exact ⟨i, Nat.lt_of_succ_lt_succ hi, h⟩

/-! ### The parser -/

/-- JSON that starts with a letter has no comma. -/
lemma not_mem_of_rendering {c : Char} {t : Str} {v : Value N} (hc : BareHead c)
    (h : Rendering .strict number (c :: t) v) : ',' ∉ c :: t := by
  obtain ⟨w, lit, w', hw, hlit, hw', heq⟩ := h
  cases w with
  | cons d w =>
    obtain ⟨rfl, -⟩ := List.cons.inj heq
    have := hw c List.mem_cons_self
    rw [isJsonSpace_of_bareHead hc] at this
    cases this
  | nil =>
    obtain ⟨d, lit, rfl, -⟩ := exists_of_renders hlit
    obtain ⟨rfl, -⟩ := List.cons.inj heq
    rw [heq, List.nil_append, List.mem_append, not_or]
    exact ⟨(isLiteral_of_renders hc hlit).not_mem (by decide),
      fun hmem => absurd (hw' _ hmem) (by decide)⟩

/-- What the rescue makes of several members. -/
lemma bareValueRescue_quotedBody
    (hstrict : ∀ s v, json.fromStr s = some v ↔ Rendering .strict number s v) {m : Str × Str}
    {ms : List (Str × Str)} (h : BareMembers (m :: ms)) (hms : ms ≠ []) :
    bareValueRescue json (quotedBody (bytesMember m) (ms.map bytesMember)) = .ok none ↔
      ∃ i < ms.length, depthBehind 0 (m :: ms.take i) = 0 := by
  obtain ⟨⟨hk, hm⟩, hrest⟩ := List.forall_mem_cons.mp h
  obtain ⟨c, t, hbytes, hc, hspace⟩ := hm.exists_bytes
  set behind := siblings ((ms.map bytesMember).map quoteMember) with hbehind
  obtain ⟨s, w, hw, hsplit, hlast⟩ := exists_blank_suffix hspace (t ++ behind)
  have hvalue : ' ' :: (m.2.bytes ++ behind) = [' '] ++ c :: s ++ w := by
    rw [hbytes, List.cons_append, hsplit]
    simp
  have hcomma : ',' ∈ c :: s := by
    have hmem : ',' ∈ t ++ behind := by
      obtain ⟨m₂, ms₂, rfl⟩ := List.exists_cons_of_ne_nil hms
      simp [hbehind, siblings]
    rw [hsplit, List.mem_append] at hmem
    refine List.mem_cons_of_mem c (hmem.resolve_right fun hmem => ?_)
    exact absurd (hw _ hmem) (by decide)
  have hnone : json.fromStr (c :: s) = none := by
    rw [Option.eq_none_iff_forall_ne_some]
    intro v hv
    exact not_mem_of_rendering hc ((hstrict _ _).mp hv) hcomma
  have hquote : ¬ ['"'] <+: c :: s := by
    intro hpre
    obtain ⟨rfl, -⟩ := List.cons_prefix_cons.mp hpre
    rcases hc with hc | hc
    · cases hc
    · exact hc (by decide)
  have hseen : topLevelComma 0 false (bytes (c :: s)) = true ↔
      ∃ i < ms.length, depthBehind 0 (m :: ms.take i) = 0 := by
    have hblank : ',' ∉ w.bytes := fun hmem =>
      absurd (hw _ (mem_of_mem_bytes (by decide) hmem)) (by decide)
    have hall : bytes (c :: s) ++ w.bytes = m.2.bytes.bytes ++
        siblings (((ms.map bytesMember).map bytesMember).map quoteMember) := by
      have hsiblings := bytes_quotedSiblings (BareMembers.bytes hrest) []
      rw [List.append_nil, bytes_nil, List.append_nil] at hsiblings
      rw [← bytes_append, ← hsiblings, ← bytes_append, hbytes, List.cons_append, List.cons_append,
        hsplit]
    rw [← topLevelComma_append hblank, hall,
      topLevelComma_word (hm.bytes.bytes.not_mem (by decide)) (hm.bytes.bytes.not_mem (by decide)),
      topLevelComma_siblings (BareMembers.bytes (BareMembers.bytes hrest)), foldl_bracketStep_bytes,
      foldl_bracketStep_bytes]
    simp only [List.length_map, List.map_take.symm, depthBehind_bytes]
    rfl
  have hblank : Blank [' '] := blank_cons.mpr ⟨rfl, blank_nil⟩
  rw [quotedBody]
  change bareValueRescue json (singleMember m.1 (' ' :: (m.2.bytes ++ behind))) = _ ↔ _
  rw [hvalue, bareValueRescue_singleMember hk hblank hw (List.cons_ne_nil c s)
    (by rintro d ⟨⟩; exact hspace) hlast, hnone, ← hseen]
  simp [hquote]

/-- Several bare values are refused unless they are all literals, or the brackets hide every comma
between them. -/
theorem bareBody_refused_iff
    (hstrict : ∀ s v, json.fromStr s = some v ↔ Rendering .strict number s v)
    {members : List (Str × Str)} (hlen : 2 ≤ members.length) (h : BareMembers members) :
    lenientParseObject json (bareBody members) = .ok none ↔
      (∃ m ∈ members, ¬ SpacedLiteral m.2) ∧
        ∃ j, 1 ≤ j ∧ j < members.length ∧ depthBehind 0 (members.take j) = 0 := by
  obtain ⟨m, ms, rfl⟩ := List.exists_cons_of_length_pos (by omega : 0 < members.length)
  have hms : ms ≠ [] := by
    rintro rfl
    simp at hlen
  have hraw : '"' ∉ bareBody (m :: ms) := by
    obtain ⟨⟨hk, hm⟩, hrest⟩ := List.forall_mem_cons.mp h
    have hsiblings : '"' ∉ siblings ms := by
      intro hmem
      obtain ⟨m', hm', hmem⟩ := List.mem_flatMap.mp hmem
      obtain ⟨hk', hv'⟩ := hrest m' hm'
      simp only [List.mem_cons, List.mem_append] at hmem
      rcases hmem with hmem | hmem | hmem | hmem | hmem | hmem
      · cases hmem
      · cases hmem
      · exact not_mem_of_isIdent hk' (by decide) hmem
      · cases hmem
      · cases hmem
      · exact hv'.not_mem (by decide) hmem
    simp [bareBody_cons, not_mem_of_isIdent hk (by decide : isIdentByte '"' = false),
      hm.not_mem (by decide : '"' ∈ _), hsiblings]
  have hread : ∀ s, json.fromStr s = fromStr number s :=
    fun s => Option.ext fun v => by rw [hstrict, rendering_strict_iff]
  have hliteral : ∀ ms : List (Str × Str),
      (∀ m ∈ ms.map bytesMember, SpacedLiteral m.2) ↔ ∀ m ∈ ms, SpacedLiteral m.2 := by
    intro ms
    simp only [List.forall_mem_map, bytesMember, spacedLiteral_bytes]
  have hbytes := BareMembers.bytes h
  have hquoted := fromStr_quotedBody number hbytes
  have hquoted' := fromStr_quotedBody number (BareMembers.bytes hbytes)
  rw [lenientParseObject_of_no_quote hraw, quotedKeys_bareBody h, bytes_quotedBody hbytes, hread,
    hread]
  by_cases hlit : ∀ m' ∈ m :: ms, SpacedLiteral m'.2
  · obtain ⟨v, hv⟩ := hquoted.mpr ((hliteral _).mpr hlit)
    rw [hv]
    constructor
    · intro hnone
      cases hnone
    · rintro ⟨⟨m', hm', hnot⟩, -⟩
      exact absurd (hlit m' hm') hnot
  · have hnone : fromStr number (quotedBody (bytesMember m) (ms.map bytesMember)) = none := by
      rw [Option.eq_none_iff_forall_ne_some]
      exact fun v hv => hlit ((hliteral _).mp (hquoted.mp ⟨v, hv⟩))
    have hnone' : fromStr number (quotedBody (bytesMember (bytesMember m))
        ((ms.map bytesMember).map bytesMember)) = none := by
      rw [Option.eq_none_iff_forall_ne_some]
      exact fun v hv => hlit ((hliteral _).mp ((hliteral _).mp (hquoted'.mp ⟨v, hv⟩)))
    rw [hnone, hnone', Option.or_none]
    simp only [bareValueRescue_quotedBody hstrict h hms]
    constructor
    · rintro ⟨i, hi, hdepth⟩
      obtain ⟨m', hm', hnot⟩ := not_forall₂.mp hlit
      exact ⟨⟨m', hm', hnot⟩, i + 1, by omega, Nat.succ_lt_succ hi, hdepth⟩
    · rintro ⟨-, j, hj, hlt, hdepth⟩
      obtain ⟨i, rfl⟩ := Nat.exists_eq_add_of_le' hj
      exact ⟨i, Nat.lt_of_succ_lt_succ hlt, hdepth⟩

def proseMembers (v : Str) : List (Str × Str) := [("a".toList, v), ("c".toList, "y".toList)]

lemma proseMembers_bare {v : Str} (hv : BareWord v) : BareMembers (proseMembers v) := by
  have ha : IsIdent "a".toList := ⟨⟨'a', rfl, by decide⟩, by simp; decide⟩
  have hc : IsIdent "c".toList := ⟨⟨'c', rfl, by decide⟩, by simp; decide⟩
  have hy : BareWord "y".toList := ⟨⟨'y', [], rfl, .inl (by decide)⟩, by simp⟩
  exact List.forall_mem_cons.mpr ⟨⟨ha, hv⟩, List.forall_mem_singleton.mpr ⟨hc, hy⟩⟩

/-- A bracket that is closed again hides nothing. -/
theorem bareBody_refused_iff_demo :
    lenientParseObject (strictJson readDigits) (bareBody (proseMembers "x [b]".toList)) =
      .ok none := by
  have hx : BareWord "x [b]".toList := ⟨⟨'x', _, rfl, .inl (by decide)⟩, by simp⟩
  apply (bareBody_refused_iff (fun _ _ => rendering_strict_iff.symm) (by decide)
    (proseMembers_bare hx)).mpr
  refine ⟨⟨("c".toList, "y".toList), by simp [proseMembers], ?_⟩, 1, le_rfl, by decide, by decide⟩
  rintro ⟨lit, w, heq, hlit, -⟩
  have hlen : (lit ++ w).length = 1 := congrArg List.length heq.symm
  rw [List.length_append] at hlen
  rcases hlit with rfl | rfl | rfl <;> simp at hlen <;> omega

/-- Behind a bracket that stays open, the second member is taken for a part of the first value. -/
theorem not_bareBody_refused :
    ¬ ∀ (N : Type) (number : Str → Option N) (json : SerdeJson N) (members : List (Str × Str)),
      (∀ s v, json.fromStr s = some v ↔ Rendering .strict number s v) → 2 ≤ members.length →
      BareMembers members → (∀ m ∈ members, ¬ IsLiteral m.2) →
      lenientParseObject json (bareBody members) = .ok none := by
  intro h
  have hx : BareWord "x [b".toList := ⟨⟨'x', _, rfl, .inl (by decide)⟩, by simp⟩
  have hliteral : ∀ m ∈ proseMembers "x [b".toList, ¬ IsLiteral m.2 := by
    simp only [proseMembers, List.forall_mem_cons, IsLiteral]
    decide
  have hrefused := h ℕ readDigits (strictJson readDigits) (proseMembers "x [b".toList)
    (fun _ _ => rendering_strict_iff.symm) (by decide) (proseMembers_bare hx) hliteral
  have hvalue : ((lenientParseObject (strictJson readDigits)
      (bareBody (proseMembers "x [b".toList))).toOption.join.bind fun w =>
        (w.get "a".toList).bind Value.asStr) = some "x [b, \"c\": y".toList := by
    decide +kernel
  rw [hrefused] at hvalue
  cases hvalue

end ModelApi.Gemma
