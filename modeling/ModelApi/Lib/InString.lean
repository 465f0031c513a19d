import Mathlib

/-!
# The strings of a text

Where the string literals of a JSON-like text stand: a quote begins or ends one, and a backslash
inside one skips the character behind it. The text need not be well formed; the last literal may be
open.
-/

namespace ModelApi.Lib

/-- Where the scanner is. -/
inductive ScanState where
  | outside
  | inString
  /-- behind a backslash inside a string -/
  | skipping
  deriving DecidableEq, Repr

def ScanState.next : ScanState → Char → ScanState
  | .outside, c  => if c = '"' then .inString else .outside
  | .inString, c => if c = '"' then .outside else if c = '\\' then .skipping else .inString
  | .skipping, _ => .inString

/-- The characters that are read in states of the kind `p`. -/
def readIn (p : ScanState → Bool) : ScanState → List Char → List Char
  | _, []     => []
  | q, c :: s => if p q then c :: readIn p (q.next c) s else readIn p (q.next c) s

/-- The characters outside strings, with the quotes that begin strings. -/
def outsideStrings (s : List Char) : List Char := readIn (· = .outside) .outside s

/-- The characters inside strings, with the quotes that end them. -/
def insideStrings (s : List Char) : List Char := readIn (· ≠ .outside) .outside s

/-- The characters behind the backslashes inside strings. -/
def escapedChars (s : List Char) : List Char := readIn (· = .skipping) .outside s

/-- The literals, the last of which may be open; `lit` has been read of the current one. -/
def literalsFrom : ScanState → List Char → List Char → List (List Char)
  | .outside, _, []       => []
  | .outside, _, c :: s   => literalsFrom (ScanState.outside.next c) [c] s
  | .inString, lit, []    => [lit]
  | .inString, lit, c :: s =>
    if c = '"' then (lit ++ [c]) :: literalsFrom .outside [] s
    else literalsFrom (ScanState.inString.next c) (lit ++ [c]) s
  | .skipping, lit, []     => [lit]
  | .skipping, lit, c :: s => literalsFrom .inString (lit ++ [c]) s

/-- The string literals of a text, with their quotes. -/
def literals (s : List Char) : List (List Char) := literalsFrom .outside [] s

example : literals "\x7ba: \"b\\\"\", \"c".toList = ["\"b\\\"\"".toList, "\"c".toList] := by decide

/-- A character that neither begins nor ends a string, and skips nothing. -/
def Plain (c : Char) : Prop := c ≠ '"' ∧ c ≠ '\\'

section Scan

variable {p : ScanState → Bool} {q : ScanState} {c : Char} {w s lit : List Char}

@[simp] lemma next_quote_outside : ScanState.outside.next '"' = .inString := rfl

@[simp] lemma next_quote_inString : ScanState.inString.next '"' = .outside := rfl

@[simp] lemma next_backslash : ScanState.inString.next '\\' = .skipping := rfl

@[simp] lemma next_skipping : ScanState.skipping.next c = .inString := rfl

lemma next_outside (h : c ≠ '"') : ScanState.outside.next c = .outside := if_neg h

lemma next_inString (h : Plain c) : ScanState.inString.next c = .inString := by
  simp [ScanState.next, h.1, h.2]

@[simp] lemma readIn_nil : readIn p q [] = [] := rfl

lemma readIn_cons_of_neg (h : p q = false) : readIn p q (c :: s) = readIn p (q.next c) s :=
  if_neg (by simp [h])

/-- Plain characters leave the scanner where it is. -/
lemma readIn_plain_of_neg (h : p .inString = false) (hw : ∀ c ∈ w, Plain c) :
    readIn p .inString (w ++ s) = readIn p .inString s := by
  induction w with
  | nil => rfl
  | cons c w ih =>
    obtain ⟨hc, hw⟩ := List.forall_mem_cons.mp hw
    rw [List.cons_append, readIn_cons_of_neg h, next_inString hc, ih hw]

/-- Outside strings nothing is gathered. -/
lemma literalsFrom_outside (lit' : List Char) :
    literalsFrom .outside lit s = literalsFrom .outside lit' s := by
  cases s <;> rfl

lemma literalsFrom_outside_append (hw : ∀ c ∈ w, c ≠ '"') :
    literalsFrom .outside lit (w ++ s) = literalsFrom .outside lit s := by
  induction w generalizing lit with
  | nil => rfl
  | cons c w ih =>
    obtain ⟨hc, hw⟩ := List.forall_mem_cons.mp hw
    rw [List.cons_append, literalsFrom, next_outside hc, ih hw]
    exact literalsFrom_outside lit

/-- A literal of plain characters. -/
lemma literalsFrom_plain (hw : ∀ c ∈ w, Plain c) :
    literalsFrom .inString lit (w ++ '"' :: s) = (lit ++ w ++ ['"']) :: literals s := by
  induction w generalizing lit with
  | nil => simp [literalsFrom, literals]
  | cons c w ih =>
    obtain ⟨hc, hw⟩ := List.forall_mem_cons.mp hw
    rw [List.cons_append, literalsFrom, if_neg hc.1, next_inString hc, ih hw]
    simp

end Scan
end ModelApi.Lib
