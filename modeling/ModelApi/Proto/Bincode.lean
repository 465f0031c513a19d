import ModelApi.Lib.Codec
import ModelApi.Proto.Types

/-!
# The payload format

Bincode 1.3 with its default options, applied to the wire types: fixed-width little-endian
integers, one byte for a boolean or an option tag, 64-bit lengths, and a 32-bit variant
index in front of the fields of an enumeration. The `#[serde(default)]` and
`#[serde(rename)]` attributes of the wire types do not change a positional payload, so every
field is written and read.
-/

namespace ModelApi

open Lib

/-- The reasons for which a payload is refused. -/
inductive BincodeError where
  | unexpectedEof
  | invalidUtf8
  | invalidBool (b : UInt8)
  | invalidOptionTag (b : UInt8)
  | invalidVariant (tag : UInt32)
  deriving DecidableEq, Repr

namespace Bincode

/-- The format of `α` in payloads. -/
abbrev Format (α : Type) := Codec BincodeError α

/-! ### Scalars -/

def u32 : Format UInt32 :=
  Codec.fixed 4 .unexpectedEof UInt32.toNat UInt32.ofNat (fun a => a.toNat_lt)
    (fun _ => UInt32.ofNat_toNat)

def u64 : Format UInt64 :=
  Codec.fixed 8 .unexpectedEof UInt64.toNat UInt64.ofNat (fun a => a.toNat_lt)
    (fun _ => UInt64.ofNat_toNat)

def f32 : Format F32 := u32.imap F32.mk F32.bits fun _ => rfl

/-- A boolean is the byte 0 or 1; any other byte is refused. -/
def bool : Format Bool where
  encode b := [if b then 1 else 0]
  decode
    | []      => .error .unexpectedEof
    | b :: bs =>
      if b = 0 then .ok (false, bs) else if b = 1 then .ok (true, bs) else .error (.invalidBool b)
  decode_encode b rest _ := by cases b <;> rfl

/-- `None` is the byte 0; `Some` is the byte 1 and the value. -/
def option {α : Type} (c : Format α) : Format (Option α) where
  encode
    | none   => [0]
    | some a => 1 :: c.encode a
  decode
    | []      => .error .unexpectedEof
    | b :: bs =>
      if b = 0 then .ok (none, bs)
      else if b = 1 then do
        let (a, bs) ← c.decode bs
        pure (some a, bs)
      else .error (.invalidOptionTag b)
  decode_encode a rest h := by
    cases a with
    | none => rfl
    | some a =>
      have ha : (c.encode a).length < 2 ^ 64 := Nat.lt_of_succ_lt h
      have hone : (1 : UInt8) ≠ 0 := by decide
      simp only [List.cons_append, if_neg hone, if_true, c.decode_encode a rest ha, bind,
        Except.bind,
        pure, Except.pure]

/-! ### Text and lists -/

/-- The UTF-8 bytes of a string. -/
def utf8 (s : String) : List UInt8 := s.toUTF8.data.toList

/-- A byte count and the UTF-8 bytes; bytes that are not UTF-8 are refused. -/
def string : Format String where
  encode s := u64.encode (UInt64.ofNat (utf8 s).length) ++ utf8 s
  decode bs := do
    let (n, bs) ← u64.decode bs
    if bs.length < n.toNat then .error .unexpectedEof
    else match String.fromUTF8? ⟨(bs.take n.toNat).toArray⟩ with
      | none   => .error .invalidUtf8
      | some s => .ok (s, bs.drop n.toNat)
  decode_encode s rest h := by
    rw [List.length_append] at h
    have hn : (UInt64.ofNat (utf8 s).length).toNat = (utf8 s).length := by
      rw [UInt64.toNat_ofNat', Nat.mod_eq_of_lt (by omega)]
    have hs : String.fromUTF8? ⟨(utf8 s).toArray⟩ = some s := by
      have hv : (⟨(utf8 s).toArray⟩ : ByteArray) = s.toByteArray := rfl
      rw [hv, String.fromUTF8?, dif_pos s.isValidUTF8]
      rfl
    rw [List.append_assoc, u64.decode_encode _ _ (by omega)]
    simp only [bind, Except.bind, hn, List.length_append, List.take_left', List.drop_left', hs]
    rw [if_neg (by omega)]

/-- A vector of values that each take at least one byte. -/
def vec {α : Type} (c : Format α) (hpos : ∀ a, c.encode a ≠ []) : Format (List α) :=
  Codec.list u64 c hpos

lemma string_encode_ne_nil (s : String) : string.encode s ≠ [] :=
  List.append_ne_nil_of_left_ne_nil (by simp [u64, Codec.fixed, leBytes]) _

/-! ### Enumerations -/

/-- An enumeration: the index of the variant, then its fields. `read` gives the reader of the
fields of a variant from its index. -/
def variants {α : Type} (index : α → UInt32) (fields : α → List UInt8)
    (read : UInt32 → Option (List UInt8 → Except BincodeError (α × List UInt8)))
    (hread : ∀ (a : α) (rest : List UInt8), (fields a).length < 2 ^ 64 →
      ∃ r, read (index a) = some r ∧ r (fields a ++ rest) = .ok (a, rest)) : Format α where
  encode a := u32.encode (index a) ++ fields a
  decode bs := do
    let (tag, bs) ← u32.decode bs
    match read tag with
    | none   => .error (.invalidVariant tag)
    | some r => r bs
  decode_encode a rest h := by
    rw [List.length_append] at h
    obtain ⟨r, hr, hfields⟩ := hread a rest (by omega)
    rw [List.append_assoc, u32.decode_encode _ _ (by omega)]
    simp only [bind, Except.bind, hr, hfields]

lemma variants_encode_ne_nil {α : Type} (index : α → UInt32) (fields : α → List UInt8)
    (read : UInt32 → Option (List UInt8 → Except BincodeError (α × List UInt8)))
    (hread : ∀ (a : α) (rest : List UInt8), (fields a).length < 2 ^ 64 →
      ∃ r, read (index a) = some r ∧ r (fields a ++ rest) = .ok (a, rest)) (a : α) :
    (variants index fields read hread).encode a ≠ [] :=
  List.append_ne_nil_of_left_ne_nil (by simp [u32, Codec.fixed, leBytes]) _

end Bincode

open Bincode

/-! ### The wire types -/

def Role.format : Format Role :=
  variants (fun | .system => 0 | .user => 1 | .assistant => 2 | .tool => 3) (fun _ => [])
    (fun
      | 0 => some (Codec.unit.read fun _ => .system)
      | 1 => some (Codec.unit.read fun _ => .user)
      | 2 => some (Codec.unit.read fun _ => .assistant)
      | 3 => some (Codec.unit.read fun _ => .tool)
      | _ => none)
    (by rintro (_ | _ | _ | _) rest - <;> exact ⟨_, rfl, rfl⟩)

def Turn.format : Format Turn :=
  (Role.format.prod (string.prod (option string))).imap
    (fun (role, content, toolCallId) => ⟨role, content, toolCallId⟩)
    (fun t => (t.role, t.content, t.toolCallId)) (fun _ => rfl)

lemma Turn.format_ne_nil (t : Turn) : Turn.format.encode t ≠ [] :=
  Codec.prod_encode_ne_nil (variants_encode_ne_nil _ _ _ _) _

def InferenceInput.format : Format InferenceInput :=
  let audio : Format (List F32 × UInt32) := (vec f32 fun _ => by
    simp [f32, u32, Codec.imap, Codec.fixed, leBytes]).prod u32
  let turns : Format (List Turn) := vec Turn.format Turn.format_ne_nil
  variants (fun | .text _ => 0 | .turns _ => 1 | .pcm _ _ => 2 | .mel _ _ => 3)
    (fun
      | .text s                 => string.encode s
      | .turns ts               => turns.encode ts
      | .pcm samples sampleRate => audio.encode (samples, sampleRate)
      | .mel data frames        => audio.encode (data, frames))
    (fun
      | 0 => some (string.read .text)
      | 1 => some (turns.read .turns)
      | 2 => some (audio.read fun (samples, sampleRate) => .pcm samples sampleRate)
      | 3 => some (audio.read fun (data, frames) => .mel data frames)
      | _ => none)
    (by rintro (_ | _ | _ | _) rest h <;> exact ⟨_, rfl, Codec.read_encode _ _ h rest⟩)

def JsonMode.format : Format JsonMode :=
  variants
    (fun
      | .none => 0 | .toolOnly => 1 | .thinkingWithTools => 2 | .anyJSON => 3
      | .notesClassifierJSON => 4)
    (fun _ => [])
    (fun
      | 0 => some (Codec.unit.read fun _ => .none)
      | 1 => some (Codec.unit.read fun _ => .toolOnly)
      | 2 => some (Codec.unit.read fun _ => .thinkingWithTools)
      | 3 => some (Codec.unit.read fun _ => .anyJSON)
      | 4 => some (Codec.unit.read fun _ => .notesClassifierJSON)
      | _ => Option.none)
    (by rintro (_ | _ | _ | _ | _) rest - <;> exact ⟨_, rfl, rfl⟩)

def ToolMode.format : Format ToolMode :=
  variants (fun | .auto => 0 | .server => 1 | .client => 2) (fun _ => [])
    (fun
      | 0 => some (Codec.unit.read fun _ => .auto)
      | 1 => some (Codec.unit.read fun _ => .server)
      | 2 => some (Codec.unit.read fun _ => .client)
      | _ => none)
    (by rintro (_ | _ | _) rest - <;> exact ⟨_, rfl, rfl⟩)

def InferenceConfig.format : Format InferenceConfig :=
  (bool.prod <| JsonMode.format.prod <| (option f32).prod <| (option f32).prod <|
    (option f32).prod <| (option f32).prod <| (option u32).prod <| (option string).prod <|
    ToolMode.format.prod <| (option u32).prod bool).imap
    (fun (disableThinkPrefix, jsonMode, temperature, topP, repPenalty, presencePenalty,
        maxTokens, systemPrompt, toolMode, streamChunkChars, streamThinking) =>
      { disableThinkPrefix, jsonMode, temperature, topP, repPenalty, presencePenalty,
        maxTokens, systemPrompt, toolMode, streamChunkChars, streamThinking })
    (fun c => (c.disableThinkPrefix, c.jsonMode, c.temperature, c.topP, c.repPenalty,
      c.presencePenalty, c.maxTokens, c.systemPrompt, c.toolMode, c.streamChunkChars,
      c.streamThinking))
    (fun _ => rfl)

def ToolParam.format : Format ToolParam :=
  (string.prod <| string.prod <| bool.prod string).imap
    (fun (name, paramType, required, description) => ⟨name, paramType, required, description⟩)
    (fun p => (p.name, p.paramType, p.required, p.description)) (fun _ => rfl)

def ToolDef.format : Format ToolDef :=
  (string.prod <| string.prod <|
    vec ToolParam.format (fun _ => Codec.prod_encode_ne_nil string_encode_ne_nil _)).imap
    (fun (name, description, parameters) => ⟨name, description, parameters⟩)
    (fun d => (d.name, d.description, d.parameters)) (fun _ => rfl)

def ToolCall.format : Format ToolCall :=
  (string.prod <| string.prod string).imap
    (fun (id, name, argumentsJson) => ⟨id, name, argumentsJson⟩)
    (fun c => (c.id, c.name, c.argumentsJson)) (fun _ => rfl)

def ToolResult.format : Format ToolResult :=
  (string.prod string).imap (fun (callId, output) => ⟨callId, output⟩)
    (fun r => (r.callId, r.output)) (fun _ => rfl)

def SessionMode.format : Format SessionMode :=
  variants (fun | .stateless => 0 | .persistent _ => 1)
    (fun
      | .stateless            => Codec.unit.encode ()
      | .persistent sessionId => string.encode sessionId)
    (fun
      | 0 => some (Codec.unit.read fun _ => .stateless)
      | 1 => some (string.read .persistent)
      | _ => none)
    (by rintro (_ | _) rest h <;> exact ⟨_, rfl, Codec.read_encode _ _ h rest⟩)

def GpuRole.format : Format GpuRole :=
  variants (fun | .fast => 0 | .deep => 1 | .asr => 2 | .omni => 3) (fun _ => [])
    (fun
      | 0 => some (Codec.unit.read fun _ => .fast)
      | 1 => some (Codec.unit.read fun _ => .deep)
      | 2 => some (Codec.unit.read fun _ => .asr)
      | 3 => some (Codec.unit.read fun _ => .omni)
      | _ => none)
    (by rintro (_ | _ | _ | _) rest - <;> exact ⟨_, rfl, rfl⟩)

def InferenceRequest.format : Format InferenceRequest :=
  (GpuRole.format.prod <| InferenceInput.format.prod <| u32.prod <| SessionMode.format.prod <|
    InferenceConfig.format.prod <|
    (vec ToolDef.format fun _ => Codec.prod_encode_ne_nil string_encode_ne_nil _).prod <|
    (vec ToolResult.format fun _ => Codec.prod_encode_ne_nil string_encode_ne_nil _).prod <|
    u64.prod <| bool.prod bool).imap
    (fun (role, input, maxTokens, session, inferenceConfig, tools, toolResults, cacheHash,
        stream, progress) =>
      { role, input, maxTokens, session, inferenceConfig, tools, toolResults, cacheHash,
        stream, progress })
    (fun r => (r.role, r.input, r.maxTokens, r.session, r.inferenceConfig, r.tools,
      r.toolResults, r.cacheHash, r.stream, r.progress))
    (fun _ => rfl)

def StreamChunk.format : Format StreamChunk :=
  (string.prod <| (option string).prod (option string)).imap
    (fun (deltaText, finishReason, phase) => ⟨deltaText, finishReason, phase⟩)
    (fun c => (c.deltaText, c.finishReason, c.phase)) (fun _ => rfl)

def ProgressEvent.format : Format ProgressEvent :=
  (string.prod <| (option string).prod (option string)).imap
    (fun (phase, tool, detail) => ⟨phase, tool, detail⟩)
    (fun p => (p.phase, p.tool, p.detail)) (fun _ => rfl)

def SessionReplacement.format : Format SessionReplacement :=
  (string.prod string).imap (fun (templateSessionId, input) => ⟨templateSessionId, input⟩)
    (fun r => (r.templateSessionId, r.input)) (fun _ => rfl)

def InferenceResponse.format : Format InferenceResponse :=
  (string.prod <| (option string).prod <| (option string).prod <|
    (vec string string_encode_ne_nil).prod <|
    (vec ToolCall.format fun _ => Codec.prod_encode_ne_nil string_encode_ne_nil _).prod <|
    option SessionReplacement.format).imap
    (fun (text, sessionId, rawText, injections, toolCalls, replacement) =>
      { text, sessionId, rawText, injections, toolCalls, replacement })
    (fun r => (r.text, r.sessionId, r.rawText, r.injections, r.toolCalls, r.replacement))
    (fun _ => rfl)

/-! ### The two envelopes -/

def ClientMessage.format : Format ClientMessage :=
  variants (fun | .hello _ => 0 | .inference _ => 1 | .cancel => 2 | .shutdown => 3)
    (fun
      | .hello protocolVersion => u32.encode protocolVersion
      | .inference req         => InferenceRequest.format.encode req
      | .cancel                => Codec.unit.encode ()
      | .shutdown              => Codec.unit.encode ())
    (fun
      | 0 => some (u32.read .hello)
      | 1 => some (InferenceRequest.format.read .inference)
      | 2 => some (Codec.unit.read fun _ => .cancel)
      | 3 => some (Codec.unit.read fun _ => .shutdown)
      | _ => none)
    (by rintro (_ | _ | _ | _) rest h <;> exact ⟨_, rfl, Codec.read_encode _ _ h rest⟩)

def ServerMessage.format : Format ServerMessage :=
  let hello : Format (UInt32 × String × Option UInt32) := u32.prod (string.prod (option u32))
  variants
    (fun
      | .hello _ _ _ => 0 | .progress _ => 1 | .chunk _ => 2 | .inferenceComplete _ => 3
      | .inferenceError _ => 4 | .goodbye => 5)
    (fun
      | .hello protocolVersion modelName gpuMemoryMb =>
        hello.encode (protocolVersion, modelName, gpuMemoryMb)
      | .progress p              => ProgressEvent.format.encode p
      | .chunk c                 => StreamChunk.format.encode c
      | .inferenceComplete resp  => InferenceResponse.format.encode resp
      | .inferenceError message  => string.encode message
      | .goodbye                 => Codec.unit.encode ())
    (fun
      | 0 => some (hello.read fun (protocolVersion, modelName, gpuMemoryMb) =>
          .hello protocolVersion modelName gpuMemoryMb)
      | 1 => some (ProgressEvent.format.read .progress)
      | 2 => some (StreamChunk.format.read .chunk)
      | 3 => some (InferenceResponse.format.read .inferenceComplete)
      | 4 => some (string.read .inferenceError)
      | 5 => some (Codec.unit.read fun _ => .goodbye)
      | _ => none)
    (by
      rintro (_ | _ | _ | _ | _ | _) rest h <;>
        exact ⟨_, rfl, Codec.read_encode _ _ h rest⟩)

end ModelApi
