import ModelApi.Client.Sync

/-!
# The Node bindings

What `model_api_node` makes of the requests of JavaScript: `to_proto_request`. A request is accepted
exactly if it can be read off its wire form, up to the defaults and the precision of its numbers.
-/

namespace ModelApi.Node

variable {BigInt Double : Type}

/-! ### Values of JavaScript -/

/-- What the bindings leave to others. -/
structure Values (BigInt Double : Type) where
  /-- the value of `get_u64` -/
  getU64 : BigInt → UInt64
  /-- `as f32` -/
  asF32 : Double → F32
  /-- the debug text of a text -/
  debug : String → String

structure ToolParam where
  name : String
  paramType : String
  required : Bool
  description : String
  deriving DecidableEq, Repr

structure ToolDef where
  name : String
  description : String
  parameters : List ToolParam
  deriving DecidableEq, Repr

structure ToolCall where
  id : String
  name : String
  argumentsJson : String
  deriving DecidableEq, Repr

structure ToolResult where
  callId : String
  output : String
  deriving DecidableEq, Repr

structure SessionReplacement where
  templateSessionId : String
  input : String
  deriving DecidableEq, Repr

/-- One shape for all events, told apart by `kind`. -/
structure StreamEvent where
  kind : String
  deltaText : Option String
  finishReason : Option String
  phase : Option String
  tool : Option String
  detail : Option String
  deriving DecidableEq, Repr

structure InferenceRequest (BigInt Double : Type) where
  role : String
  input : String
  maxTokens : UInt32
  sessionId : Option String
  cacheHash : Option BigInt
  tools : Option (List ToolDef)
  toolResults : Option (List ToolResult)
  toolMode : Option String
  temperature : Option Double
  topP : Option Double
  repPenalty : Option Double
  presencePenalty : Option Double
  maxTokensOverride : Option UInt32
  systemPrompt : Option String
  jsonMode : Option String
  disableThinkPrefix : Option Bool
  streamChunkChars : Option UInt32
  streamThinking : Option Bool

structure InferenceResponse where
  text : String
  sessionId : Option String
  rawText : Option String
  injections : List String
  toolCalls : List ToolCall
  replacement : Option SessionReplacement
  deriving DecidableEq, Repr

/-! ### Requests -/

def toProtoToolDef (t : ToolDef) : ModelApi.ToolDef where
  name := t.name
  description := t.description
  parameters := t.parameters.map fun p => ⟨p.name, p.paramType, p.required, p.description⟩

def toProtoToolResult (r : ToolResult) : ModelApi.ToolResult := ⟨r.callId, r.output⟩

section Requests

variable (v : Values BigInt Double)

def protoRole (role : String) : Except String GpuRole :=
  match role with
  | "fast" => .ok .fast
  | "deep" => .ok .deep
  | "asr"  => .ok .asr
  | "omni" => .ok .omni
  | other  => .error s!"role must be one of 'fast', 'deep', 'asr', 'omni'; got {v.debug other}"

def protoToolMode (toolMode : Option String) : Except String ToolMode :=
  match toolMode with
  | none | some "auto" => .ok .auto
  | some "server"      => .ok .server
  | some "client"      => .ok .client
  | some other         =>
    .error s!"toolMode must be 'auto', 'server', or 'client'; got {v.debug other}"

def protoJsonMode (jsonMode : Option String) : Except String JsonMode :=
  match jsonMode with
  | none | some "none"           => .ok .none
  | some "tool-only"             => .ok .toolOnly
  | some "thinking-with-tools"   => .ok .thinkingWithTools
  | some "any-json"              => .ok .anyJSON
  | some "notes-classifier-json" => .ok .notesClassifierJSON
  | some other                   =>
    .error ("jsonMode must be one of 'none','tool-only','thinking-with-tools'," ++
      s!"'any-json','notes-classifier-json'; got {v.debug other}")

def protoSession : Option String → SessionMode
  | none    => .stateless
  | some id => .persistent id

def toProtoRequest (r : InferenceRequest BigInt Double) : Except String ModelApi.InferenceRequest :=
  match protoRole v r.role with
  | .error e => .error e
  | .ok role =>
    let cacheHash := (r.cacheHash.map v.getU64).getD 0
    match protoToolMode v r.toolMode with
    | .error e     => .error e
    | .ok toolMode =>
      match protoJsonMode v r.jsonMode with
      | .error e     => .error e
      | .ok jsonMode => .ok
        { role := role
          input := .text r.input
          maxTokens := r.maxTokens
          session := protoSession r.sessionId
          inferenceConfig :=
            { disableThinkPrefix := r.disableThinkPrefix.getD false
              jsonMode := jsonMode
              temperature := r.temperature.map v.asF32
              topP := r.topP.map v.asF32
              repPenalty := r.repPenalty.map v.asF32
              presencePenalty := r.presencePenalty.map v.asF32
              maxTokens := r.maxTokensOverride
              systemPrompt := r.systemPrompt
              toolMode := toolMode
              streamChunkChars := r.streamChunkChars
              streamThinking := r.streamThinking.getD false }
          tools := (r.tools.getD []).map toProtoToolDef
          toolResults := (r.toolResults.getD []).map toProtoToolResult
          cacheHash := cacheHash
          stream := false
          progress := false }

/-- A request with its defaults, and with its numbers as they are sent. -/
def InferenceRequest.filled (r : InferenceRequest BigInt Double) : InferenceRequest UInt64 F32 where
  role := r.role
  input := r.input
  maxTokens := r.maxTokens
  sessionId := r.sessionId
  cacheHash := some ((r.cacheHash.map v.getU64).getD 0)
  tools := some (r.tools.getD [])
  toolResults := some (r.toolResults.getD [])
  toolMode := some (r.toolMode.getD "auto")
  temperature := r.temperature.map v.asF32
  topP := r.topP.map v.asF32
  repPenalty := r.repPenalty.map v.asF32
  presencePenalty := r.presencePenalty.map v.asF32
  maxTokensOverride := r.maxTokensOverride
  systemPrompt := r.systemPrompt
  jsonMode := some (r.jsonMode.getD "none")
  disableThinkPrefix := some (r.disableThinkPrefix.getD false)
  streamChunkChars := r.streamChunkChars
  streamThinking := some (r.streamThinking.getD false)

end Requests

/-! ### Reading requests back -/

def roleName : GpuRole → String
  | .fast => "fast"
  | .deep => "deep"
  | .asr  => "asr"
  | .omni => "omni"

def toolModeName : ToolMode → String
  | .auto   => "auto"
  | .server => "server"
  | .client => "client"

def jsonModeName : JsonMode → String
  | .none                => "none"
  | .toolOnly            => "tool-only"
  | .thinkingWithTools   => "thinking-with-tools"
  | .anyJSON             => "any-json"
  | .notesClassifierJSON => "notes-classifier-json"

def sessionId : SessionMode → Option String
  | .stateless     => none
  | .persistent id => some id

def toolDef (t : ModelApi.ToolDef) : ToolDef where
  name := t.name
  description := t.description
  parameters := t.parameters.map fun p => ⟨p.name, p.paramType, p.required, p.description⟩

def toolResult (r : ModelApi.ToolResult) : ToolResult := ⟨r.callId, r.output⟩

/-- The request of JavaScript that a request on the wire stands for. -/
def readBack (p : ModelApi.InferenceRequest) : Option (InferenceRequest UInt64 F32) :=
  match p.input with
  | .text input => some
    { role := roleName p.role
      input := input
      maxTokens := p.maxTokens
      sessionId := sessionId p.session
      cacheHash := some p.cacheHash
      tools := some (p.tools.map toolDef)
      toolResults := some (p.toolResults.map toolResult)
      toolMode := some (toolModeName p.inferenceConfig.toolMode)
      temperature := p.inferenceConfig.temperature
      topP := p.inferenceConfig.topP
      repPenalty := p.inferenceConfig.repPenalty
      presencePenalty := p.inferenceConfig.presencePenalty
      maxTokensOverride := p.inferenceConfig.maxTokens
      systemPrompt := p.inferenceConfig.systemPrompt
      jsonMode := some (jsonModeName p.inferenceConfig.jsonMode)
      disableThinkPrefix := some p.inferenceConfig.disableThinkPrefix
      streamChunkChars := p.inferenceConfig.streamChunkChars
      streamThinking := some p.inferenceConfig.streamThinking }
  | .turns _ | .pcm _ _ | .mel _ _ => none

variable {v : Values BigInt Double}

lemma protoRole_eq_ok {role : String} {p : GpuRole} :
    protoRole v role = .ok p ↔ role = roleName p := by
  constructor
  · intro h
    unfold protoRole at h
    split at h <;> cases h <;> rfl
  · rintro rfl
    cases p <;> rfl

lemma protoToolMode_eq_ok {toolMode : Option String} {p : ToolMode} :
    protoToolMode v toolMode = .ok p ↔ toolMode.getD "auto" = toolModeName p := by
  constructor
  · intro h
    unfold protoToolMode at h
    split at h <;> cases h <;> rfl
  · intro h
    cases toolMode with
    | none => cases p <;> first | rfl | exact absurd h (by decide)
    | some s =>
      obtain rfl : s = toolModeName p := h
      cases p <;> rfl

lemma protoJsonMode_eq_ok {jsonMode : Option String} {p : JsonMode} :
    protoJsonMode v jsonMode = .ok p ↔ jsonMode.getD "none" = jsonModeName p := by
  constructor
  · intro h
    unfold protoJsonMode at h
    split at h <;> cases h <;> rfl
  · intro h
    cases jsonMode with
    | none => cases p <;> first | rfl | exact absurd h (by decide)
    | some s =>
      obtain rfl : s = jsonModeName p := h
      cases p <;> rfl

lemma protoSession_eq {id : Option String} {session : SessionMode} :
    session = protoSession id ↔ sessionId session = id := by
  cases id <;> cases session <;> simp [protoSession, sessionId]

lemma toolDef_toProtoToolDef (t : ToolDef) : toolDef (toProtoToolDef t) = t := by
  simp [toolDef, toProtoToolDef, Function.comp_def]

lemma toProtoToolDef_toolDef (t : ModelApi.ToolDef) : toProtoToolDef (toolDef t) = t := by
  simp [toolDef, toProtoToolDef, Function.comp_def]

lemma map_toProtoToolDef {ts : List ModelApi.ToolDef} {ts' : List ToolDef} :
    ts = ts'.map toProtoToolDef ↔ ts.map toolDef = ts' := by
  constructor
  · rintro rfl
    simp [Function.comp_def, toolDef_toProtoToolDef]
  · rintro rfl
    simp [Function.comp_def, toProtoToolDef_toolDef]

lemma map_toProtoToolResult {rs : List ModelApi.ToolResult} {rs' : List ToolResult} :
    rs = rs'.map toProtoToolResult ↔ rs.map toolResult = rs' := by
  constructor
  · rintro rfl
    simp [Function.comp_def, toolResult, toProtoToolResult]
  · rintro rfl
    simp [Function.comp_def, toolResult, toProtoToolResult]

/-- A request is accepted, as the one on the wire that it can be read off, up to the defaults. -/
theorem toProtoRequest_eq_ok_iff (v : Values BigInt Double) (r : InferenceRequest BigInt Double)
    (p : ModelApi.InferenceRequest) :
    toProtoRequest v r = .ok p ↔
      readBack p = some (r.filled v) ∧ p.stream = false ∧ p.progress = false := by
  constructor
  · intro h
    cases hrole : protoRole v r.role with
    | error e => simp [toProtoRequest, hrole] at h
    | ok role =>
      cases htoolMode : protoToolMode v r.toolMode with
      | error e => simp [toProtoRequest, hrole, htoolMode] at h
      | ok toolMode =>
        cases hjsonMode : protoJsonMode v r.jsonMode with
        | error e => simp [toProtoRequest, hrole, htoolMode, hjsonMode] at h
        | ok jsonMode =>
          simp only [toProtoRequest, hrole, htoolMode, hjsonMode, Except.ok.injEq] at h
          rw [protoRole_eq_ok] at hrole
          rw [protoToolMode_eq_ok] at htoolMode
          rw [protoJsonMode_eq_ok] at hjsonMode
          subst h
          simp [readBack, InferenceRequest.filled, hrole, htoolMode, hjsonMode,
            protoSession_eq.mp rfl, map_toProtoToolDef.mp rfl, map_toProtoToolResult.mp rfl]
  · rintro ⟨hread, hstream, hprogress⟩
    obtain ⟨role, input, maxTokens, session, config, tools, toolResults, cacheHash, stream,
      progress⟩ := p
    cases input with
    | turns => cases hread
    | pcm => cases hread
    | mel => cases hread
    | text input =>
      obtain rfl : stream = false := hstream
      obtain rfl : progress = false := hprogress
      simp only [readBack, InferenceRequest.filled, Option.some.injEq,
        InferenceRequest.mk.injEq] at hread
      obtain ⟨hrole, rfl, rfl, hsession, rfl, htools, htoolResults, htoolMode, htemperature, htopP,
        hrepPenalty, hpresencePenalty, hmax, hsystem, hjsonMode, hdisable, hchunk, hthinking⟩ :=
        hread
      rw [toProtoRequest, protoRole_eq_ok.mpr hrole.symm]
      simp only
      rw [protoToolMode_eq_ok.mpr htoolMode.symm, protoJsonMode_eq_ok.mpr hjsonMode.symm]
      simp only
      rw [← protoSession_eq.mpr hsession, ← map_toProtoToolDef.mpr htools,
        ← map_toProtoToolResult.mpr htoolResults, ← htemperature, ← htopP, ← hrepPenalty,
        ← hpresencePenalty, ← hmax, ← hsystem, ← hdisable, ← hchunk, ← hthinking]

end ModelApi.Node
