import ModelApi.Gemma.Json
import ModelApi.Lib.Pattern

/-!
# The lenient JSON parser

The text scanners of `json_lenient.rs` with their indices and slices as the code has them, and the
recovery attempts of `lenient_parse_object` in their order.
-/

namespace ModelApi.Gemma

open Lib Lib.Str

variable {N : Type}

/-! ### Scanners -/

/-- The escape of a control character inside a string. -/
def escapeControl (b : Char) : Str :=
  if b = '\n' then ['\\', 'n']
  else if b = '\r' then ['\\', 'r']
  else if b = '\t' then ['\\', 't']
  -- `\u{:04x}`
  else ['\\', 'u', '0', '0', Nat.digitChar (b.toNat / 16), Nat.digitChar (b.toNat % 16)]

/-- The letters behind a backslash that JSON knows. -/
def isValidEscape (b : Char) : Bool :=
  b == '"' || b == '\\' || b == '/' || b == 'b' || b == 'f' || b == 'n' || b == 'r' || b == 't' ||
    b == 'u'

structure EscapeState where
  i : ℕ
  out : Str
  inString : Bool

def escapeStringControlsTurn (bytes : Str) (s : EscapeState) :
    Except Fault (EscapeState ⊕ Str) :=
  if s.i < bytes.length then do
    let b ← byteAt bytes s.i
    if s.inString then
      if b = '\\' ∧ s.i + 1 < bytes.length then
        let nxt ← byteAt bytes (s.i + 1)
        if isValidEscape nxt then return .inl { s with i := s.i + 2, out := s.out ++ [b, nxt] }
        else return .inl { s with i := s.i + 1, out := s.out ++ ['\\', '\\'] }
      else if b = '"' then return .inl ⟨s.i + 1, s.out ++ ['"'], false⟩
      else if b.toNat ≤ 0x1F then
        return .inl { s with i := s.i + 1, out := s.out ++ escapeControl b }
      else return .inl { s with i := s.i + 1, out := s.out ++ [b] }
    else if b = '"' then return .inl ⟨s.i + 1, s.out ++ ['"'], true⟩
    else return .inl { s with i := s.i + 1, out := s.out ++ [b] }
  else .ok (.inr s.out)

def escapeStringControls (raw : Str) : Except Fault Str :=
  loop (escapeStringControlsTurn raw.bytes) (raw.bytes.length + 1) ⟨0, [], false⟩

structure CommaState where
  i : ℕ
  depth : Int32
  inString : Bool

def hasTopLevelCommaTurn (bytes : Str) (s : CommaState) : Except Fault (CommaState ⊕ Bool) :=
  if s.i < bytes.length then do
    let b ← byteAt bytes s.i
    if s.inString then
      if b = '\\' ∧ s.i + 1 < bytes.length then return .inl { s with i := s.i + 2 }
      else return .inl { s with i := s.i + 1, inString := b ≠ '"' }
    else if b = '"' then return .inl { s with i := s.i + 1, inString := true }
    else if b = '[' ∨ b = '{' then return .inl { s with i := s.i + 1, depth := s.depth + 1 }
    else if b = ']' ∨ b = '}' then return .inl { s with i := s.i + 1, depth := s.depth - 1 }
    else if b = ',' ∧ s.depth = 0 then return .inr true
    else return .inl { s with i := s.i + 1 }
  else .ok (.inr false)

def hasTopLevelComma (s : Str) : Except Fault Bool :=
  loop (hasTopLevelCommaTurn s.bytes) (s.bytes.length + 1) ⟨0, 0, false⟩

/-- `while i < bytes.len()`, as long as `p` holds of the byte at `i`. -/
def skipWhile (p : Char → Bool) (bytes : Str) : ℕ → Except Fault ℕ :=
  loop (fun i =>
    if i < bytes.length then do
      let c ← byteAt bytes i
      if p c then return .inl (i + 1) else return .inr i
    else .ok (.inr i)) (bytes.length + 1)

/-- The bytes of an identifier. -/
def isIdentByte (c : Char) : Bool := isAsciiAlphanumeric c || c == '_'

/-- The bytes an identifier starts with. -/
def isIdentStart (c : Char) : Bool := isAsciiAlphabetic c || c == '_'

structure QuoteState where
  i : ℕ
  out : Str
  inString : Bool
  prevWasOpenOrComma : Bool

def quoteBareKeysTurn (raw : Str) (s : QuoteState) : Except Fault (QuoteState ⊕ Str) :=
  let bytes := raw.bytes
  if s.i < bytes.length then do
    let b ← byteAt bytes s.i
    if s.inString then
      if b = '\\' ∧ s.i + 1 < bytes.length then
        let next ← byteAt bytes (s.i + 1)
        return .inl { s with i := s.i + 2, out := s.out ++ [b] ++ [next] }
      else return .inl { s with i := s.i + 1, out := s.out ++ [b], inString := b ≠ '"' }
    else if b = '"' then return .inl ⟨s.i + 1, s.out ++ ['"'], true, false⟩
    else if b = '{' ∨ b = ',' then return .inl ⟨s.i + 1, s.out ++ [b], false, true⟩
    else if isAsciiWhitespace b then return .inl { s with i := s.i + 1, out := s.out ++ [b] }
    else if s.prevWasOpenOrComma ∧ isIdentStart b then
      let start := s.i
      let i ← skipWhile isIdentByte bytes start
      let ident ← slice raw start i
      let j ← skipWhile isAsciiWhitespace bytes i
      let sep := bytes[j]?
      if sep = some ':' ∨ sep = some '=' then
        let out := s.out ++ ['"'] ++ ident ++ ['"']
        if sep = some '=' then
          let between ← slice raw i j
          return .inl ⟨j + 1, out ++ between ++ [':'], false, false⟩
        else return .inl ⟨i, out, false, false⟩
      else return .inl ⟨i, s.out ++ ident, false, false⟩
    else return .inl ⟨s.i + 1, s.out ++ [b], false, false⟩
  else .ok (.inr s.out)

def quoteBareKeys (raw : Str) : Except Fault Str :=
  loop (quoteBareKeysTurn raw) (raw.bytes.length + 1) ⟨0, [], false, false⟩

/-! ### Structural quotes -/

/-- A character of a key, behind the first. -/
def isKeyChar (c : Char) : Bool := isIdentByte c || c == '.' || c == '-'

/-- A possibly escaped quote: `\\?"`. -/
def quoteItems : Pattern := [.opt (· == '\\'), .one (· == '"')]

/-- `[A-Za-z_][A-Za-z0-9_.\-]{0,30}` -/
def keyItems : Pattern := [.one isIdentStart, .upTo 30 isKeyChar]

/-- `[\{,]\s*\\?"KEY\\?"\s*:\s*\\?"` -/
def STRUCTURAL_KV_PAIR : Pattern :=
  [.one fun c => c == '{' || c == ',', .many isWhitespace] ++ quoteItems ++ keyItems ++
    quoteItems ++ [.many isWhitespace, .one (· == ':'), .many isWhitespace] ++ quoteItems

/-- `\\?"\s*,\s*\\?"KEY\\?"\s*:` -/
def STRUCTURAL_VALUE_CLOSE_THEN_KEY : Pattern :=
  quoteItems ++ [.many isWhitespace, .one (· == ','), .many isWhitespace] ++ quoteItems ++
    keyItems ++ quoteItems ++ [.many isWhitespace, .one (· == ':')]

/-- `\\"(\s*\})` -/
def STRUCTURAL_VALUE_CLOSE : Pattern :=
  [.one (· == '\\'), .one (· == '"'), .many isWhitespace, .one (· == '}')]

/-- One turn of the loop over a match: `base` is where it starts in the text. -/
def collectTurn (base : ℕ) (bytes : Str) (s : ℕ × List ℕ) :
    Except Fault (ℕ × List ℕ ⊕ List ℕ) :=
  let (i, out) := s
  if i + 1 < bytes.length then do
    let b ← byteAt bytes i
    let next ← byteAt bytes (i + 1)
    if b = '\\' ∧ next = '"' then return .inl (i + 2, out ++ [base + i])
    else return .inl (i + 1, out)
  else .ok (.inr out)

/-- The escaped quotes of a match, behind those that are known. -/
def collect (out : List ℕ) (m : ℕ × Str) : Except Fault (List ℕ) :=
  loop (collectTurn m.1 m.2.bytes) (m.2.bytes.length + 1) (0, out)

/-- Write the text up to `pos` and a quote, and skip what stands at `pos`. -/
def unEscapeAt (raw : Str) (s : Str × ℕ) (pos : ℕ) : Except Fault (Str × ℕ) :=
  let (out, cursor) := s
  if pos < cursor then .ok (out, cursor)
  else do
    let part ← slice raw cursor pos
    return (out ++ part ++ ['"'], pos + 2)

def unEscapeStructuralQuotes (raw : Str) : Except Fault (Option Str) :=
  if ¬ contains raw ['\\', '"'] then .ok none
  else do
    let found ← (STRUCTURAL_KV_PAIR.findIter raw ++
      STRUCTURAL_VALUE_CLOSE_THEN_KEY.findIter raw ++
      STRUCTURAL_VALUE_CLOSE.findIter raw).foldlM collect []
    if found = [] then return none
    else
      let toUnescape := (found.insertionSort (· ≤ ·)).destutter (· ≠ ·)
      let (out, cursor) ← toUnescape.foldlM (unEscapeAt raw) ([], 0)
      let rest ← sliceFrom raw cursor
      if out ++ rest = raw then return none else return some (out ++ rest)

/-! ### Recovery -/

/-- Step 2: a single key with an unquoted value. -/
def bareValueRescue (json : SerdeJson N) (quotedKeys : Str) :
    Except Fault (Option (Value N)) :=
  match (stripPrefix quotedKeys.trim ['{']).bind fun t => stripSuffix t ['}'] with
  | none          => .ok none
  | some stripped =>
    let inner := stripped.trim
    match find [':'] inner with
    | none       => .ok none
    | some colon => do
      let keyPart := (← slice inner 0 colon).trim
      if ¬ ['"'] <+: keyPart ∨ ¬ ['"'] <:+ keyPart then return none
      else
        let key ← slice keyPart 1 (keyPart.len - 1)
        if contains key ['"'] then return none
        else
          let valueRaw := (← sliceFrom inner (colon + 1)).trim
          if valueRaw = [] then return none
          else match json.fromStr valueRaw with
            | some v => return some (.object (Map.insert key v []))
            | none   =>
              if ← hasTopLevelComma valueRaw then return none
              else if ['"'] <+: valueRaw then return none
              else return some (.object (Map.insert key (.string valueRaw) []))

def lenientParseObject (json : SerdeJson N) (raw : Str) : Except Fault (Option (Value N)) := do
  let quotedKeys ← quoteBareKeys raw
  match json.fromStr quotedKeys with
  | some v => return some v
  | none   =>
    let escaped ← escapeStringControls quotedKeys
    match if escaped ≠ quotedKeys then json.fromStr escaped else none with
    | some v => return some v
    | none   =>
      match (← unEscapeStructuralQuotes escaped).bind fun rewritten =>
        if rewritten ≠ escaped then json.fromStr rewritten else none with
      | some v => return some v
      | none   => bareValueRescue json quotedKeys

end ModelApi.Gemma
