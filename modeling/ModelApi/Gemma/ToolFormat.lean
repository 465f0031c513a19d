import ModelApi.Gemma.JsonLenient

/-!
# Tool-call formats

The three ways in which a model writes a tool call, from `tool_format.rs`. Which characters are
alphanumeric is left open.
-/

namespace ModelApi.Gemma

open Lib Lib.Str

variable {N : Type}

structure ParsedCall (N : Type) where
  name : Str
  args : Value N

/-- The trait `ToolFormat`. -/
structure ToolFormat (N : Type) where
  openMarker : Str
  closeMarker : Str
  parseBody : Str → Except Fault (Option (ParsedCall N))
  formatResponse : Str → Str

def TOOL : Str := "tool".toList

variable (json : SerdeJson N) (isAlphanumeric : Char → Bool)

/-- `chars().all(|c| c.is_alphanumeric() || c == '_')` -/
def isBareName (s : Str) : Bool := s.all fun c => isAlphanumeric c || c == '_'

def XmlToolFormat.parseBody (body : Str) : Option (ParsedCall N) :=
  let trimmed := body.trim
  if ¬ ['{'] <+: trimmed ∧ isBareName isAlphanumeric trimmed then
    some ⟨trimmed, .object (Map.insert TOOL (.string trimmed) [])⟩
  else
    (json.fromStr trimmed).bind fun v =>
      (((v.get TOOL).or (v.get "name".toList)).bind Value.asStr).map fun name =>
        ⟨name, v.mapObject (Map.insert TOOL (.string name))⟩

def XmlToolFormat : ToolFormat N where
  openMarker := "<tool_call>".toList
  closeMarker := "</tool_call>".toList
  parseBody body := .ok (XmlToolFormat.parseBody json isAlphanumeric body)
  formatResponse response := "<tool_response>".toList ++ response ++ "</tool_response>".toList

def ChatMLToolFormat.parseBody (body : Str) : Option (ParsedCall N) :=
  (json.fromStr body.trim).bind fun v =>
    (((v.get "name".toList).or (v.get TOOL)).bind Value.asStr).map fun name =>
      let out := Map.insert TOOL (.string name) []
      let args := ((v.get "arguments".toList).bind Value.asObject).getD []
      ⟨name, .object (args.foldl (fun out e => Map.insert e.1 e.2 out) out)⟩

def ChatMLToolFormat : ToolFormat N where
  openMarker := "<tool_call>".toList
  closeMarker := "</tool_call>".toList
  parseBody body := .ok (ChatMLToolFormat.parseBody json body)
  formatResponse response := "<tool_response>".toList ++ response ++ "</tool_response>".toList

namespace Gemma4ToolFormat

/-- The special token of the quote, as it leaks into the text. -/
def QUOTE_TOKEN : Str := "<|\"|>".toList

/-- Leaked tokens replaced by the quotes they stand for. -/
def normalize (body : Str) : Str :=
  if contains body QUOTE_TOKEN then replace body QUOTE_TOKEN ['"'] else body

/-- The body without white space around it and without `call:`. -/
def stripped (body : Str) : Str :=
  let trimmed := (normalize body).trim
  ((stripPrefix trimmed "call:".toList).getD trimmed).trim

/-- The arguments, read strictly or else leniently. -/
def parseArguments (rawArgs : Str) : Except Fault (Option (Value N)) :=
  match json.fromStr rawArgs with
  | some v => .ok (some v)
  | none   => lenientParseObject json rawArgs

/-- The name and the arguments. -/
def parseCall (stripped : Str) : Except Fault (Option (Str × Map N)) :=
  match find ['{'] stripped with
  | some brace => do
    let name := (← slice stripped 0 brace).trim
    let rawArgs ← sliceFrom stripped brace
    return (← parseArguments json rawArgs).map fun v => (name, v.asObject.getD [])
  | none =>
    if isBareName isAlphanumeric stripped then .ok (some (stripped, [])) else .ok none

def parseBody (body : Str) : Except Fault (Option (ParsedCall N)) :=
  if stripped body = [] then .ok none
  else do
    match ← parseCall json isAlphanumeric (stripped body) with
    | none => return none
    | some (name, argsObj) =>
      if name = [] then return none
      else return some ⟨name, .object (Map.insert TOOL (.string name) argsObj)⟩

end Gemma4ToolFormat

def Gemma4ToolFormat : ToolFormat N where
  openMarker := "<|tool_call>".toList
  closeMarker := "<tool_call|>".toList
  parseBody := Gemma4ToolFormat.parseBody json isAlphanumeric
  formatResponse response := "<|tool_response>".toList ++ response ++ "<tool_response|>".toList

/-- The three formats. -/
inductive Format where
  | xml
  | chatML
  | gemma4
  deriving DecidableEq, Repr

def Format.toolFormat : Format → ToolFormat N
  | .xml    => XmlToolFormat json isAlphanumeric
  | .chatML => ChatMLToolFormat json
  | .gemma4 => Gemma4ToolFormat json isAlphanumeric

end ModelApi.Gemma
