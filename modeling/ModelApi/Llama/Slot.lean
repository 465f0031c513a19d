import ModelApi.Llama.Session
import ModelApi.Server.Handler
import ModelApi.Server.ToolText

/-!
# The llama.cpp slot

`LlamaSlot::run_inner`: the prompt of a request, the generation on the one session that all
requests share, the events and the response.
-/

namespace ModelApi.Llama

open Gemma Server

/-! ### Prompts -/

/-- The trait `ChatFormat`. -/
structure ChatFormat where
  formatSystem : String → String
  formatUser : String → String
  formatAssistant : String → String
  formatAssistantStart : String

def ChatMLFormat : ChatFormat where
  formatSystem c := s!"<|im_start|>system\n{c}<|im_end|>\n"
  formatUser c := s!"<|im_start|>user\n{c}<|im_end|>\n"
  formatAssistant c := s!"<|im_start|>assistant\n{c}<|im_end|>\n"
  formatAssistantStart := "<|im_start|>assistant\n"

def Gemma4Format : ChatFormat where
  formatSystem c := s!"<|turn>system\n{c}<turn|>\n"
  formatUser c := s!"<|turn>user\n{c}<turn|>\n"
  formatAssistant c := s!"<|turn>model\n{c}<turn|>\n"
  formatAssistantStart := "<|turn>model\n"

def renderTurn (fmt : ChatFormat) (turn : Turn) : String :=
  match turn.role with
  | .system    => fmt.formatSystem turn.content
  | .user      => fmt.formatUser turn.content
  | .assistant => fmt.formatAssistant turn.content
  | .tool      => fmt.formatUser turn.content

def renderTurns (fmt : ChatFormat) (turns : List Turn) (systemPrompt : Option String) : String :=
  let alreadyHasSystem := turns.head?.any fun t => t.role = .system
  let system := match systemPrompt with
    | some sys => if ¬ alreadyHasSystem ∧ sys ≠ "" then fmt.formatSystem sys else ""
    | none     => ""
  turns.foldl (fun out turn => out ++ renderTurn fmt turn) system ++ fmt.formatAssistantStart

variable {Token N : Type}

def formatToolResultText (result : ToolResult) (toolFormat : ToolFormat N) : String :=
  String.ofList (toolFormat.formatResponse result.output.toList)

def toolResultsToTurns (results : List ToolResult) (toolFormat : ToolFormat N) : List Turn :=
  results.map fun r => .tool (formatToolResultText r toolFormat) r.callId

def prependToolResultsToText (userText : String) (results : List ToolResult)
    (toolFormat : ToolFormat N) : String :=
  results.foldl (fun out r => out ++ formatToolResultText r toolFormat ++ "\n") "" ++ userText

/-! ### Requests -/

/-- What a slot is spawned with. The texts of tokens belong to the model. -/
structure LlamaSlot (Token N : Type) where
  llama : LlamaCpp Token
  strToToken : String → Bool → Except String (List Token)
  detokenize : List Token → String
  json : SerdeJson N
  toolFormat : ToolFormat N
  chatFormat : ChatFormat

namespace LlamaSlot

variable (slot : LlamaSlot Token N)

def tokenize (prompt : String) (addBos : Bool) : Except String (List Token) :=
  match slot.strToToken prompt addBos with
  | .ok tokens => .ok tokens
  | .error e   => .error s!"tokenize: {e}"

def wantClientDispatch (req : InferenceRequest) : Bool :=
  match req.inferenceConfig.toolMode with
  | .client => true
  | .server => false
  | .auto   => !req.tools.isEmpty

def prompt (req : InferenceRequest) : Except String String :=
  match req.input with
  | .turns turns =>
    .ok (renderTurns slot.chatFormat (turns ++ toolResultsToTurns req.toolResults slot.toolFormat)
      req.inferenceConfig.systemPrompt)
  | .text s      => .ok (prependToolResultsToText s req.toolResults slot.toolFormat)
  | .pcm _ _     => .error "audio inputs not supported on the llama backend"
  | .mel _ _     => .error "audio inputs not supported on the llama backend"

/-- What runs under the session's lock. -/
def generate (prompt : String) (maxTokens : ℕ) (s : Session Token) :
    Except String String × Session Token :=
  match slot.tokenize prompt true with
  | .error e         => (.error e, s)
  | .ok promptTokens =>
    match Session.generateRaw slot.llama promptTokens maxTokens s with
    | (.error e, s)      => (.error e, s)
    | (.ok outTokens, s) => (.ok (slot.detokenize outTokens), s)

def progress (phase : String) : SlotEvent := .progress ⟨phase, none, none⟩

def sessionIdOf : SessionMode → Option String
  | .persistent sessionId => some sessionId
  | .stateless            => none

/-- The response to a text, or a panic while tool calls are extracted. -/
def respond (req : InferenceRequest) (text : String) :
    Except Lib.Fault (Except String InferenceResponse) := do
  let toolCalls ←
    if wantClientDispatch req then extractToolCalls slot.json slot.toolFormat text.toList
    else pure []
  return .ok ⟨text, sessionIdOf req.session, none, [], toolCalls, none⟩

/-- The events that reach the sink, and the result. -/
structure Outcome where
  events : List SlotEvent
  result : Except Lib.Fault (Except String InferenceResponse)

/-- `run_inner`, with or without a sink. -/
def runInner (req : InferenceRequest) (sink : Bool) (s : Session Token) :
    Outcome × Session Token :=
  match slot.prompt req with
  | .error e   => (⟨[], .ok (.error e)⟩, s)
  | .ok prompt =>
    let started := if sink then [progress "queued", progress "gen_start"] else []
    match slot.generate prompt req.maxTokens.toNat s with
    | (.error e, s) => (⟨started, .ok (.error e)⟩, s)
    | (.ok text, s) =>
      let done := if sink then [.chunk ⟨text, none, none⟩, progress "gen_done"] else []
      (⟨started ++ done, slot.respond req text⟩, s)

/-- The session behind earlier requests. -/
def serve (history : List (InferenceRequest × Bool)) (s : Session Token) : Session Token :=
  history.foldl (fun s r => (slot.runInner r.1 r.2 s).2) s

end LlamaSlot
end ModelApi.Llama
