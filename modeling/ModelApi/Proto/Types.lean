import Mathlib

/-!
# Wire types

The messages a client and the model server exchange. Records and enumerations follow the
wire crate field by field and variant by variant, in declaration order, because the payload
format is positional. An `f32` is carried as its bit pattern: nothing here computes with it,
and the wire and the cache key see only the bits.
-/

namespace ModelApi

/-- An IEEE-754 single, by its bits. -/
structure F32 where
  bits : UInt32
  deriving DecidableEq, Repr

/-- Role of a single conversation turn. -/
inductive Role where
  | system
  | user
  | assistant
  | tool
  deriving DecidableEq, Repr

/-- One conversation turn. -/
structure Turn where
  role : Role
  content : String
  toolCallId : Option String
  deriving DecidableEq, Repr

namespace Turn

def user (content : String) : Turn := ⟨.user, content, none⟩

def assistant (content : String) : Turn := ⟨.assistant, content, none⟩

def system (content : String) : Turn := ⟨.system, content, none⟩

def tool (content callId : String) : Turn := ⟨.tool, content, some callId⟩

end Turn

/-- Wire shape of the input payload. -/
inductive InferenceInput where
  | text (s : String)
  | turns (ts : List Turn)
  | pcm (samples : List F32) (sampleRate : UInt32)
  | mel (data : List F32) (frames : UInt32)
  deriving DecidableEq, Repr

/-- Output-shape constraint. -/
inductive JsonMode where
  | none
  | toolOnly
  | thinkingWithTools
  | anyJSON
  | notesClassifierJSON
  deriving DecidableEq, Repr

/-- Where tool calls get dispatched. -/
inductive ToolMode where
  | auto
  | server
  | client
  deriving DecidableEq, Repr

/-- Per-request knobs. The field defaults are those of `InferenceConfig::default`. -/
structure InferenceConfig where
  disableThinkPrefix : Bool := false
  jsonMode : JsonMode := .none
  temperature : Option F32 := none
  topP : Option F32 := none
  repPenalty : Option F32 := none
  presencePenalty : Option F32 := none
  maxTokens : Option UInt32 := none
  systemPrompt : Option String := none
  toolMode : ToolMode := .auto
  streamChunkChars : Option UInt32 := none
  streamThinking : Bool := false
  deriving DecidableEq, Repr

structure ToolParam where
  name : String
  paramType : String
  required : Bool
  description : String
  deriving DecidableEq, Repr

/-- A tool the model can call. -/
structure ToolDef where
  name : String
  description : String
  parameters : List ToolParam
  deriving DecidableEq, Repr

/-- A tool the model wants the client to execute. -/
structure ToolCall where
  id : String
  name : String
  argumentsJson : String
  deriving DecidableEq, Repr

/-- Result of executing a tool call. -/
structure ToolResult where
  callId : String
  output : String
  deriving DecidableEq, Repr

/-- How the server should treat the session's KV cache. -/
inductive SessionMode where
  | stateless
  | persistent (sessionId : String)
  deriving DecidableEq, Repr

/-- Which model role a request is for. The declared discriminants 1, 2, 4, 8 do not reach the
wire: the payload carries the position of the variant. -/
inductive GpuRole where
  | fast
  | deep
  | asr
  | omni
  deriving DecidableEq, Repr

/-- Request body for a single inference. -/
structure InferenceRequest where
  role : GpuRole
  input : InferenceInput
  maxTokens : UInt32
  session : SessionMode
  inferenceConfig : InferenceConfig
  tools : List ToolDef
  toolResults : List ToolResult
  cacheHash : UInt64
  stream : Bool
  progress : Bool
  deriving DecidableEq, Repr

/-- A request for `turns` that asks for nothing else. -/
def InferenceRequest.plain (session : SessionMode) (turns : List Turn) : InferenceRequest where
  role := .deep
  input := .turns turns
  maxTokens := 64
  session := session
  inferenceConfig := {}
  tools := []
  toolResults := []
  cacheHash := 0
  stream := false
  progress := false

/-- Streamed text chunk emitted during generation. -/
structure StreamChunk where
  deltaText : String
  finishReason : Option String
  phase : Option String
  deriving DecidableEq, Repr

/-- Progress milestone. -/
structure ProgressEvent where
  phase : String
  tool : Option String
  detail : Option String
  deriving DecidableEq, Repr

/-- Hand-off marker. -/
structure SessionReplacement where
  templateSessionId : String
  input : String
  deriving DecidableEq, Repr

/-- Final inference result. -/
structure InferenceResponse where
  text : String
  sessionId : Option String
  rawText : Option String
  injections : List String
  toolCalls : List ToolCall
  replacement : Option SessionReplacement
  deriving DecidableEq, Repr

/-- Anything a client sends to the server. -/
inductive ClientMessage where
  | hello (protocolVersion : UInt32)
  | inference (req : InferenceRequest)
  | cancel
  | shutdown
  deriving DecidableEq, Repr

/-- Anything the server sends to a client. -/
inductive ServerMessage where
  | hello (protocolVersion : UInt32) (modelName : String) (gpuMemoryMb : Option UInt32)
  | progress (p : ProgressEvent)
  | chunk (c : StreamChunk)
  | inferenceComplete (resp : InferenceResponse)
  | inferenceError (message : String)
  | goodbye
  deriving DecidableEq, Repr

/-- The frames that end a request. -/
def ServerMessage.isTerminal : ServerMessage → Bool
  | .inferenceComplete _ | .inferenceError _           => true
  | .hello _ _ _ | .progress _ | .chunk _ | .goodbye   => false

/-- The frames that belong to no request. -/
def ServerMessage.isOutOfBand : ServerMessage → Bool
  | .hello _ _ _ | .goodbye                                            => true
  | .progress _ | .chunk _ | .inferenceComplete _ | .inferenceError _  => false

/-- The protocol revision both sides announce in their `Hello`. -/
def PROTOCOL_VERSION : UInt32 := 3

end ModelApi
