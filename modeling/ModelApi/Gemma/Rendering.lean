import ModelApi.Gemma.ToolFormat

/-!
# Renderings of JSON values

Which texts render a value: strict JSON, or JSON with the deviations that a model drifts into. One
relation covers both; a `Style` says which deviations it allows.
-/

namespace ModelApi.Gemma

open Lib Lib.Str

/-- What a rendering may look like. -/
structure Style where
  /-- a key that is an identifier may go without quotes -/
  bareKeys : Bool
  /-- `=` may stand for `:` behind a bare key -/
  equals : Bool
  /-- the special token may stand for a quote around a string -/
  leakedQuotes : Bool
  /-- control characters may stand in strings -/
  rawControls : Bool
  /-- a backslash may go undoubled where no escape starts -/
  loneBackslashes : Bool
  /-- a backslash may go undoubled right in front of a special token that closes its string -/
  loneBeforeToken : Bool
  /-- what holds of all keys and strings -/
  content : Str → Prop

namespace Style

/-- JSON. -/
def strict : Style where
  bareKeys := false
  equals := false
  leakedQuotes := false
  rawControls := false
  loneBackslashes := false
  loneBeforeToken := false
  content _ := True

/-- ASCII, without the special token. -/
def PlainContent (s : Str) : Prop :=
  (∀ c ∈ s, isAscii c) ∧ ¬ Gemma4ToolFormat.QUOTE_TOKEN <:+: s

/-- What the model drifts into, where the special token counts as the quote it stands for. -/
def drifted : Style where
  bareKeys := true
  equals := true
  leakedQuotes := true
  rawControls := true
  loneBackslashes := true
  loneBeforeToken := false
  content := PlainContent

end Style

def isJsonSpace (c : Char) : Bool := c == ' ' || c == '\n' || c == '\t' || c == '\r'

/-- JSON white space. -/
def Space (s : Str) : Prop := ∀ c ∈ s, isJsonSpace c = true

/-! ### Strings -/

/-- The characters with a short escape. -/
def shortEscape (e : Char) : Option Char :=
  if e = '"' then some '"'
  else if e = '\\' then some '\\'
  else if e = '/' then some '/'
  else if e = 'b' then some (Char.ofNat 8)
  else if e = 'f' then some (Char.ofNat 12)
  else if e = 'n' then some '\n'
  else if e = 'r' then some '\r'
  else if e = 't' then some '\t'
  else none

def hexDigit (c : Char) : Option ℕ :=
  if '0' ≤ c ∧ c ≤ '9' then some (c.toNat - 48)
  else if 'a' ≤ c ∧ c ≤ 'f' then some (c.toNat - 87)
  else if 'A' ≤ c ∧ c ≤ 'F' then some (c.toNat - 55)
  else none

/-- The number that four hexadecimal digits spell. -/
def hex4 (a b c d : Char) : Option ℕ := do
  return 4096 * (← hexDigit a) + 256 * (← hexDigit b) + 16 * (← hexDigit c) + (← hexDigit d)

/-- Behind a backslash: the spelling of a character. -/
inductive Unescapes : Str → Char → Prop where
  | short {e c : Char} (h : shortEscape e = some c) : Unescapes [e] c
  | unicode {a b c d : Char} {n : ℕ} (h : hex4 a b c d = some n) (hn : n < 0xD800 ∨ 0xE000 ≤ n) :
      Unescapes ['u', a, b, c, d] (Char.ofNat n)
  /-- a surrogate pair -/
  | pair {a b c d a' b' c' d' : Char} {n n' : ℕ} (h : hex4 a b c d = some n)
      (hn : 0xD800 ≤ n ∧ n < 0xDC00) (h' : hex4 a' b' c' d' = some n')
      (hn' : 0xDC00 ≤ n' ∧ n' < 0xE000) :
      Unescapes ['u', a, b, c, d, '\\', 'u', a', b', c', d']
        (Char.ofNat (0x10000 + (n - 0xD800) * 0x400 + (n' - 0xDC00)))

/-- What stands between the quotes of a string. -/
inductive Chars (style : Style) : Str → Str → Prop where
  | nil : Chars style [] []
  | plain {c : Char} {t s : Str} (hquote : c ≠ '"') (hbackslash : c ≠ '\\') (hc : 0x20 ≤ c.toNat)
      (h : Chars style t s) : Chars style (c :: t) (c :: s)
  | escape {e t s : Str} {c : Char} (he : Unescapes e c) (h : Chars style t s) :
      Chars style ('\\' :: (e ++ t)) (c :: s)
  | rawControl {c : Char} {t s : Str} (hstyle : style.rawControls = true) (hc : c.toNat < 0x20)
      (h : Chars style t s) : Chars style (c :: t) (c :: s)
  | lone {x : Char} {t s : Str} (hstyle : style.loneBackslashes = true)
      (hx : isValidEscape x = false) (h : Chars style (x :: t) s) :
      Chars style ('\\' :: x :: t) ('\\' :: s)

/-- A quote around a string. -/
inductive Quote (style : Style) : Str → Prop where
  | plain : Quote style ['"']
  | leaked (hstyle : style.leakedQuotes = true) : Quote style Gemma4ToolFormat.QUOTE_TOKEN

inductive StringLit (style : Style) : Str → Str → Prop where
  | quoted {q q' t s : Str} (hq : Quote style q) (ht : Chars style t s) (hq' : Quote style q')
      (hs : style.content s) : StringLit style (q ++ t ++ q') s
  | loneEnd {q t s : Str} (hstyle : style.loneBeforeToken = true) (hq : Quote style q)
      (ht : Chars style t s) (hs : style.content (s ++ ['\\'])) :
      StringLit style (q ++ t ++ '\\' :: Gemma4ToolFormat.QUOTE_TOKEN) (s ++ ['\\'])

/-! ### Numbers -/

def isDigit (c : Char) : Bool := '0' ≤ c && c ≤ '9'

def isNumberChar (c : Char) : Bool :=
  isDigit c || c == '-' || c == '+' || c == '.' || c == 'e' || c == 'E'

def isExponent : Str → Bool
  | []     => true
  | e :: s =>
    let digits := if s.head? = some '+' ∨ s.head? = some '-' then s.tail else s
    (e == 'e' || e == 'E') && digits ≠ [] && digits.all isDigit

def isFraction : Str → Bool
  | '.' :: s => s.takeWhile isDigit ≠ [] && isExponent (s.dropWhile isDigit)
  | s        => isExponent s

/-- `-?(0|[1-9][0-9]*)(\.[0-9]+)?([eE][+-]?[0-9]+)?` -/
def isNumberLiteral (lit : Str) : Bool :=
  let unsigned := if lit.head? = some '-' then lit.tail else lit
  let digits := unsigned.takeWhile isDigit
  lit.all isNumberChar && (digits = ['0'] ∨ digits ≠ [] ∧ digits.head? ≠ some '0') &&
    isFraction (unsigned.dropWhile isDigit)

/-! ### Values -/

/-- `[A-Za-z_][A-Za-z0-9_]*` -/
def IsIdent (s : Str) : Prop :=
  (∃ c ∈ s.head?, isIdentStart c = true) ∧ ∀ c ∈ s, isIdentByte c = true

/-- A key, white space and the separator. -/
inductive KeySep (style : Style) : Str → Str → Prop where
  | quoted {t w k : Str} (h : StringLit style t k) (hw : Space w) : KeySep style (t ++ w ++ [':']) k
  | bare {w k : Str} (hstyle : style.bareKeys = true) (hk : IsIdent k) (hs : style.content k)
      (hw : Space w) : KeySep style (k ++ w ++ [':']) k
  | equals {w k : Str} (hbare : style.bareKeys = true) (hequals : style.equals = true)
      (hk : IsIdent k) (hs : style.content k) (hw : Space w) : KeySep style (k ++ w ++ ['=']) k

/-- What is rendered: a value, the elements of an array or the members of an object. -/
inductive Node (N : Type) where
  | value (v : Value N)
  | elements (vs : List (Value N))
  | members (ms : List (Str × Value N))

/-- The object with these members: of equal keys the last one counts. -/
def Map.ofMembers {N : Type} (ms : List (Str × Value N)) : Map N :=
  ms.foldl (fun map e => Map.insert e.1 e.2 map) []

variable {N : Type}

/-- The texts that render a node with at most `n` containers inside each other. `number` reads
number literals. -/
inductive Renders (style : Style) (number : Str → Option N) : ℕ → Str → Node N → Prop where
  | null {n : ℕ} : Renders style number n "null".toList (.value .null)
  | true {n : ℕ} : Renders style number n "true".toList (.value (.bool true))
  | false {n : ℕ} : Renders style number n "false".toList (.value (.bool false))
  | number {n : ℕ} {lit : Str} {x : N} (hlit : isNumberLiteral lit = true)
      (hx : number lit = some x) : Renders style number n lit (.value (.number x))
  | string {n : ℕ} {t s : Str} (h : StringLit style t s) :
      Renders style number n t (.value (.string s))
  | emptyArray {n : ℕ} {w : Str} (hw : Space w) :
      Renders style number (n + 1) ('[' :: (w ++ [']'])) (.value (.array []))
  | array {n : ℕ} {t : Str} {vs : List (Value N)} (h : Renders style number n t (.elements vs)) :
      Renders style number (n + 1) ('[' :: (t ++ [']'])) (.value (.array vs))
  | emptyObject {n : ℕ} {w : Str} (hw : Space w) :
      Renders style number (n + 1) ('{' :: (w ++ ['}'])) (.value (.object []))
  | object {n : ℕ} {t : Str} {ms : List (Str × Value N)}
      (h : Renders style number n t (.members ms)) :
      Renders style number (n + 1) ('{' :: (t ++ ['}'])) (.value (.object (Map.ofMembers ms)))
  | element {n : ℕ} {w t w' : Str} {v : Value N} (hw : Space w)
      (h : Renders style number n t (.value v)) (hw' : Space w') :
      Renders style number n (w ++ (t ++ w')) (.elements [v])
  | elements {n : ℕ} {w t w' ts : Str} {v : Value N} {vs : List (Value N)} (hw : Space w)
      (h : Renders style number n t (.value v)) (hw' : Space w')
      (hs : Renders style number n ts (.elements vs)) :
      Renders style number n (w ++ (t ++ (w' ++ ',' :: ts))) (.elements (v :: vs))
  | member {n : ℕ} {w key k w' t w'' : Str} {v : Value N} (hw : Space w) (hkey : KeySep style key k)
      (hw' : Space w') (h : Renders style number n t (.value v)) (hw'' : Space w'') :
      Renders style number n (w ++ (key ++ (w' ++ (t ++ w'')))) (.members [(k, v)])
  | members {n : ℕ} {w key k w' t w'' ts : Str} {v : Value N} {ms : List (Str × Value N)}
      (hw : Space w) (hkey : KeySep style key k) (hw' : Space w')
      (h : Renders style number n t (.value v)) (hw'' : Space w'')
      (hs : Renders style number n ts (.members ms)) :
      Renders style number n (w ++ (key ++ (w' ++ (t ++ (w'' ++ ',' :: ts)))))
        (.members ((k, v) :: ms))

/-- The recursion limit of 128 lets 127 containers be opened inside each other. -/
def MAX_NESTING : ℕ := 127

/-- A text: a value with white space around it. -/
def Rendering (style : Style) (number : Str → Option N) (s : Str) (v : Value N) : Prop :=
  ∃ w t w' : Str, Space w ∧ Renders style number MAX_NESTING t (.value v) ∧ Space w' ∧
    s = w ++ (t ++ w')

end ModelApi.Gemma
