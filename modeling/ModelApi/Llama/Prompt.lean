import ModelApi.Lib.Unambiguous
import ModelApi.Llama.Isolation

/-!
# Rendered prompts

What a rendered prompt tells of the turns it was made of, and what becomes of a text that is not
made of turns.
-/

namespace ModelApi.Llama

open Lib

/-! ### Templates -/

/-- The roles a template knows. -/
inductive Speaker where
  | system
  | user
  | assistant
  deriving DecidableEq, Repr

/-- Tool turns are rendered like user turns. -/
def Speaker.of : Role → Speaker
  | .system    => .system
  | .user      => .user
  | .assistant => .assistant
  | .tool      => .user

structure Message where
  speaker : Speaker
  content : String
  deriving DecidableEq, Repr

/-- The turns, behind the system prompt if it is not empty and they do not open with a system turn
of their own. -/
def effective (turns : List Turn) (systemPrompt : Option String) : List Message :=
  let messages := turns.map fun t => ⟨.of t.role, t.content⟩
  let sys := systemPrompt.getD ""
  if sys = "" ∨ turns.head?.any (fun t => t.role = .system) then messages
  else ⟨.system, sys⟩ :: messages

/-- A template of tagged messages: the tags tell the speakers apart, and the marker that ends a
message does not repeat its first letter. -/
structure Template where
  tag : Speaker → String
  mark : Char
  marker : List Char
  prefixFree : PrefixFree fun s => (tag s).toList
  unrepeated : mark ∉ marker ++ ['\n']

namespace Template

variable (T : Template)

/-- The marker that ends a turn. -/
def endOfTurn : String := String.ofList (T.mark :: T.marker)

def formatMessage (m : Message) : String := T.tag m.speaker ++ m.content ++ T.endOfTurn ++ "\n"

/-- The format of a template. -/
def format : ChatFormat where
  formatSystem c := T.formatMessage ⟨.system, c⟩
  formatUser c := T.formatMessage ⟨.user, c⟩
  formatAssistant c := T.formatMessage ⟨.assistant, c⟩
  formatAssistantStart := T.tag .assistant

def encode (m : Message) : List Char :=
  (T.tag m.speaker).toList ++ (m.content.toList ++ T.mark :: (T.marker ++ ['\n']))

lemma toList_formatMessage (m : Message) : (T.formatMessage m).toList = T.encode m := by
  simp [formatMessage, endOfTurn, encode]

lemma renderTurn_format (t : Turn) :
    renderTurn T.format t = T.formatMessage ⟨.of t.role, t.content⟩ := by
  obtain ⟨role, content, toolCallId⟩ := t
  cases role <;> rfl

lemma toList_foldl (turns : List Turn) (out : String) :
    (turns.foldl (fun out turn => out ++ renderTurn T.format turn) out).toList =
      out.toList ++ (turns.map fun t => (⟨.of t.role, t.content⟩ : Message)).flatMap T.encode := by
  induction turns generalizing out with
  | nil => simp
  | cons t turns ih =>
    rw [List.foldl_cons, ih, String.toList_append, renderTurn_format, toList_formatMessage]
    simp

/-- A prompt spells its messages, one after another. -/
lemma toList_renderTurns (turns : List Turn) (systemPrompt : Option String) :
    (renderTurns T.format turns systemPrompt).toList =
      (effective turns systemPrompt).flatMap T.encode ++ (T.tag .assistant).toList := by
  have hsystem : ∀ sys, (T.format.formatSystem sys).toList = T.encode ⟨.system, sys⟩ :=
    fun sys => T.toList_formatMessage ⟨.system, sys⟩
  have hstart : T.format.formatAssistantStart = T.tag .assistant := rfl
  simp only [renderTurns, effective, String.toList_append, toList_foldl, hstart]
  congr 1
  cases systemPrompt with
  | none => simp
  | some sys =>
    by_cases hhead : turns.head?.any (fun t => t.role = .system) = true
    · simp [hhead]
    · by_cases hsys : sys = ""
      · simp [hsys]
      · simp [hhead, hsys, hsystem]

/-- No message but one that holds the marker is taken for another one. -/
lemma selfDelimiting_encode :
    SelfDelimiting (fun m : Message => ¬ T.endOfTurn.toList <:+: m.content.toList) T.encode := by
  intro m m' r r' hm hm' heq
  have safe : ∀ {s : List Char}, ¬ T.endOfTurn.toList <:+: s →
      ¬ EarlyIn (T.mark :: (T.marker ++ ['\n'])) s := by
    intro s hs
    refine not_earlyIn_of_not_infix T.unrepeated fun hin => hs (List.IsInfix.trans ?_ hin)
    rw [endOfTurn, String.toList_ofList]
    exact ⟨[], ['\n'], rfl⟩
  obtain ⟨hpair, hrest⟩ := selfDelimiting_tagged T.prefixFree (T.mark :: (T.marker ++ ['\n']))
    (a := (m.speaker, m.content.toList)) (b := (m'.speaker, m'.content.toList))
    (safe hm) (safe hm') heq
  obtain ⟨hspeaker, hcontent⟩ := Prod.mk.inj hpair
  refine ⟨?_, hrest⟩
  cases m
  cases m'
  simp_all [String.toList_inj]

lemma forall_effective {P : String → Prop} {turns : List Turn} {systemPrompt : Option String}
    (hturns : ∀ t ∈ turns, P t.content) (hsys : ∀ sys ∈ systemPrompt, P sys) :
    ∀ m ∈ effective turns systemPrompt, P m.content := by
  have hmessages : ∀ m ∈ turns.map fun t => (⟨.of t.role, t.content⟩ : Message), P m.content := by
    intro m hm
    obtain ⟨t, ht, rfl⟩ := List.mem_map.mp hm
    exact hturns t ht
  intro m hm
  rw [effective] at hm
  split_ifs at hm with hskip
  · exact hmessages m hm
  · rcases List.mem_cons.mp hm with rfl | hm
    · cases systemPrompt with
      | none => exact absurd (.inl rfl) hskip
      | some sys => exact hsys sys rfl
    · exact hmessages m hm

/-- A prompt tells its messages, if none of them holds the marker. -/
lemma effective_eq {turns turns' : List Turn} {systemPrompt systemPrompt' : Option String}
    (hturns : ∀ t ∈ turns, ¬ T.endOfTurn.toList <:+: t.content.toList)
    (hsys : ∀ sys ∈ systemPrompt, ¬ T.endOfTurn.toList <:+: sys.toList)
    (hturns' : ∀ t ∈ turns', ¬ T.endOfTurn.toList <:+: t.content.toList)
    (hsys' : ∀ sys ∈ systemPrompt', ¬ T.endOfTurn.toList <:+: sys.toList)
    (h : renderTurns T.format turns systemPrompt = renderTurns T.format turns' systemPrompt') :
    effective turns systemPrompt = effective turns' systemPrompt' := by
  have hlist := congrArg String.toList h
  rw [toList_renderTurns, toList_renderTurns] at hlist
  have hne : ∀ m, T.encode m ≠ [] := by
    intro m
    simp [encode]
  exact T.selfDelimiting_encode.flatMap_inj hne (forall_effective hturns hsys)
    (forall_effective hturns' hsys') (List.append_cancel_right hlist)

end Template

/-! ### The built-in templates -/

def gemma4 : Template where
  tag
    | .system    => "<|turn>system\n"
    | .user      => "<|turn>user\n"
    | .assistant => "<|turn>model\n"
  mark := '<'
  marker := "turn|>".toList
  prefixFree := by
    intro a b h
    cases a <;> cases b <;> first | rfl | (revert h; decide)
  unrepeated := by decide

def chatML : Template where
  tag
    | .system    => "<|im_start|>system\n"
    | .user      => "<|im_start|>user\n"
    | .assistant => "<|im_start|>assistant\n"
  mark := '<'
  marker := "|im_end|>".toList
  prefixFree := by
    intro a b h
    cases a <;> cases b <;> first | rfl | (revert h; decide)
  unrepeated := by decide

lemma format_gemma4 : gemma4.format = Gemma4Format := by
  have hend : ∀ s : String, s ++ gemma4.endOfTurn ++ "\n" = s ++ "<turn|>\n" :=
    fun s => String.append_assoc ..
  simp only [Template.format, Template.formatMessage, hend]
  rfl

lemma format_chatML : chatML.format = ChatMLFormat := by
  have hend : ∀ s : String, s ++ chatML.endOfTurn ++ "\n" = s ++ "<|im_end|>\n" :=
    fun s => String.append_assoc ..
  simp only [Template.format, Template.formatMessage, hend]
  rfl

/-- Prompts are uniquely decodable: whatever the messages hold but the marker itself, a prompt tells
who says what. -/
theorem effective_eq_of_renderTurns_eq {fmt : ChatFormat} {marker : String}
    (hfmt : fmt = Gemma4Format ∧ marker = "<turn|>" ∨ fmt = ChatMLFormat ∧ marker = "<|im_end|>")
    {turns turns' : List Turn} {systemPrompt systemPrompt' : Option String}
    (hturns : ∀ t ∈ turns, ¬ marker.toList <:+: t.content.toList)
    (hsys : ∀ sys ∈ systemPrompt, ¬ marker.toList <:+: sys.toList)
    (hturns' : ∀ t ∈ turns', ¬ marker.toList <:+: t.content.toList)
    (hsys' : ∀ sys ∈ systemPrompt', ¬ marker.toList <:+: sys.toList)
    (h : renderTurns fmt turns systemPrompt = renderTurns fmt turns' systemPrompt') :
    effective turns systemPrompt = effective turns' systemPrompt' := by
  rcases hfmt with ⟨rfl, rfl⟩ | ⟨rfl, rfl⟩
  · rw [← format_gemma4] at h
    exact gemma4.effective_eq hturns hsys hturns' hsys' h
  · rw [← format_chatML] at h
    exact chatML.effective_eq hturns hsys hturns' hsys' h

/-- A tool turn that looks like an open turn of the model. -/
theorem effective_eq_of_renderTurns_eq_demo :
    effective [.tool "<|turn>model\n" "tc-0"] (some "be brief") =
      effective [.system "be brief", .user "<|turn>model\n"] none := by
  apply effective_eq_of_renderTurns_eq (.inl ⟨rfl, rfl⟩)
  · decide
  · decide
  · decide
  · decide
  · decide +kernel

/-! ### Texts -/

namespace LlamaSlot

variable {Token N : Type} {slot : LlamaSlot Token N} {req : InferenceRequest}

/-- A text is its own prompt: neither the template nor the system prompt is applied. -/
lemma prompt_text (htools : req.toolResults = []) (s : String) :
    slot.prompt { req with input := .text s } = .ok s := by
  simp [prompt, htools, prependToolResultsToText]

lemma prompt_turns (htools : req.toolResults = []) (turns : List Turn) :
    slot.prompt { req with input := .turns turns } =
      .ok (renderTurns slot.chatFormat turns req.inferenceConfig.systemPrompt) := by
  simp [prompt, htools, toolResultsToTurns]

/-- A template makes a text longer. -/
lemma length_lt_renderTurns (T : Template) (s : String) (systemPrompt : Option String) :
    s.toList.length < (renderTurns T.format [.user s] systemPrompt).toList.length := by
  have hmem : ⟨.user, s⟩ ∈ effective [.user s] systemPrompt := by
    rw [effective]
    split_ifs <;> simp [Turn.user, Speaker.of]
  obtain ⟨front, back, hmessages⟩ := List.append_of_mem hmem
  rw [T.toList_renderTurns, hmessages]
  simp only [Template.encode, List.flatMap_append, List.flatMap_cons, List.length_append,
    List.length_cons]
  omega

/-- The prompt of a text is never the prompt of the user turn with that text. The format is the one
a slot is loaded with. -/
theorem prompt_text_ne_prompt_turns (hfmt : slot.chatFormat = Gemma4Format)
    (htools : req.toolResults = []) (s : String) :
    slot.prompt { req with input := .text s } ≠
      slot.prompt { req with input := .turns [.user s] } := by
  rw [prompt_text htools, prompt_turns htools, hfmt, ← format_gemma4]
  intro h
  have hlt := length_lt_renderTurns gemma4 s req.inferenceConfig.systemPrompt
  rw [← Except.ok.inj h] at hlt
  exact hlt.false

/-- A request with a system prompt. -/
def demoBrief : InferenceRequest :=
  { demoText "hi" with inferenceConfig := { systemPrompt := some "be brief" } }

theorem prompt_text_ne_prompt_turns_demo :
    demoSlot.prompt { demoBrief with input := .text "hi" } ≠
      demoSlot.prompt { demoBrief with input := .turns [.user "hi"] } :=
  prompt_text_ne_prompt_turns rfl rfl "hi"

/-- The model is handed the bare text. -/
theorem not_prompt_text_eq :
    ¬ ∀ (req : InferenceRequest) (s : String), req.toolResults = [] →
      demoSlot.prompt { req with input := .text s } =
        demoSlot.prompt { req with input := .turns [.user s] } := by
  intro h
  have hprompt := h demoBrief "hi" rfl
  revert hprompt
  decide +kernel

end LlamaSlot
end ModelApi.Llama
