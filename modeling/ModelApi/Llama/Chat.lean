import ModelApi.Gemma.Json
import ModelApi.Lib.Updates
import ModelApi.Llama.Prompt

/-!
# Chat templates

`chitin_llama::prompt` and `chitin_llama::jinja_chat`: the prompt for one text, by the template that
comes with the model, and the tools as the template gets to see them. Of the parameters of a tool,
the template sees the last one of each name, and the required ones in their order.
-/

namespace ModelApi.Gemma

open Lib

variable {N : Type}

/-! ### Objects -/

namespace Map

/-- The keys ascend. -/
def Sorted (map : Map N) : Prop := map.Pairwise fun e e' => e.1 < e'.1

lemma mem_insert {key : Str} {v : Value N} {map : Map N} {e : Str × Value N}
    (h : e ∈ insert key v map) : e = (key, v) ∨ e ∈ map := by
  induction map with
  | nil => simpa [insert] using h
  | cons f map ih =>
    rw [insert] at h
    split_ifs at h with heq hlt
    · rcases List.mem_cons.mp h with rfl | h
      · exact .inl rfl
      · exact .inr (List.mem_cons_of_mem _ h)
    · exact List.mem_cons.mp h
    · rcases List.mem_cons.mp h with rfl | h
      · exact .inr List.mem_cons_self
      · exact (ih h).imp_right (List.mem_cons_of_mem _)

lemma sorted_insert {map : Map N} (h : map.Sorted) (key : Str) (v : Value N) :
    Sorted (insert key v map) := by
  induction map with
  | nil => simp [insert, Sorted]
  | cons e map ih =>
    obtain ⟨hhead, htail⟩ := List.pairwise_cons.mp h
    rw [insert]
    split_ifs with heq hlt
    · subst heq
      exact List.pairwise_cons.mpr ⟨hhead, htail⟩
    · apply List.pairwise_cons.mpr
      refine ⟨fun f hf => ?_, h⟩
      rcases List.mem_cons.mp hf with rfl | hf
      · exact hlt
      · exact hlt.trans (hhead f hf)
    · apply List.pairwise_cons.mpr
      refine ⟨fun f hf => ?_, ih htail⟩
      rcases mem_insert hf with rfl | hf
      · exact lt_of_le_of_ne (not_lt.mp hlt) (Ne.symm heq)
      · exact hhead f hf

lemma mem_iff_get {map : Map N} (h : map.Sorted) {key : Str} {v : Value N} :
    (key, v) ∈ map ↔ get key map = some v := by
  induction map with
  | nil => simp [get]
  | cons e map ih =>
    obtain ⟨hhead, htail⟩ := List.pairwise_cons.mp h
    rw [List.mem_cons, ih htail, get_cons]
    split_ifs with heq
    · subst heq
      constructor
      · rintro (hv | hv)
        · rw [← hv]
        · exact absurd (hhead _ ((ih htail).mpr hv)) (lt_irrefl _)
      · intro hv
        exact .inl (by rw [← Option.some.inj hv])
    · constructor
      · rintro (hv | hv)
        · exact absurd (congrArg Prod.fst hv) heq
        · exact hv
      · exact .inr

/-- Objects with the same value under every key are the same. -/
lemma ext_of_sorted {map map' : Map N} (h : map.Sorted) (h' : map'.Sorted)
    (hget : ∀ key, get key map = get key map') : map = map' := by
  have hnodup : ∀ {map : Map N}, map.Sorted → map.Nodup := by
    intro map hmap
    apply List.Pairwise.imp _ hmap
    rintro e e' hlt rfl
    exact lt_irrefl _ hlt
  have hperm : map.Perm map' := by
    rw [List.perm_ext_iff_of_nodup (hnodup h) (hnodup h')]
    rintro ⟨key, v⟩
    rw [mem_iff_get h, mem_iff_get h', hget]
  refine hperm.eq_of_pairwise (fun e e' _ _ hlt hgt => ?_) h h'
  exact absurd (hlt.trans hgt) (lt_irrefl _)

/-- The object that `json!` makes of some entries. -/
def ofEntries (entries : Map N) : Map N := entries.foldl (fun map e => insert e.1 e.2 map) []

lemma sorted_ofEntries (entries : Map N) : (ofEntries entries).Sorted := by
  have hfold : ∀ map : Map N, map.Sorted →
      Sorted (entries.foldl (fun map e => insert e.1 e.2 map) map) := by
    induction entries with
    | nil => exact fun map h => h
    | cons e entries ih => exact fun map h => ih _ (sorted_insert h e.1 e.2)
  exact hfold [] List.Pairwise.nil

/-- Objects are the same if the last entry under each key is. -/
lemma ofEntries_eq_iff {entries entries' : Map N} : ofEntries entries = ofEntries entries' ↔
    ∀ key, entries.reverse.lookup key = entries'.reverse.lookup key := by
  have hget (entries : Map N) (key : Str) :
      get key (ofEntries entries) = entries.reverse.lookup key := by
    rw [ofEntries, get_foldl_insert]
    simp [get]
  constructor
  · intro h key
    rw [← hget, ← hget, h]
  · intro h
    apply ext_of_sorted (sorted_ofEntries _) (sorted_ofEntries _)
    intro key
    rw [hget, hget, h]

lemma lookup_of_mem {entries : Map N} (h : (entries.map Prod.fst).Nodup) {key : Str} {v : Value N}
    (hmem : (key, v) ∈ entries) : entries.lookup key = some v := by
  induction entries with
  | nil => cases hmem
  | cons e entries ih =>
    rw [List.map_cons, List.nodup_cons] at h
    rw [show (e :: entries).lookup key = get key ((e.1, e.2) :: entries) from rfl, get_cons]
    rcases List.mem_cons.mp hmem with rfl | hmem
    · rw [if_pos rfl]
    · have hne : key ≠ e.1 := by
        rintro rfl
        exact h.1 (List.mem_map.mpr ⟨_, hmem, rfl⟩)
      rw [if_neg hne]
      exact ih h.2 hmem

end Map
end ModelApi.Gemma

namespace ModelApi.Llama

open Lib Gemma

variable {N : Type}

/-! ### Tools -/

def text (s : String) : Value N := .string s.toList

/-- `json!` for an object. -/
def json (entries : List (String × Value N)) : Value N :=
  .object (Map.ofEntries (entries.map fun e => (e.1.toList, e.2)))

/-- The word of JSON schema for a type. Other words come out in lower case. -/
def jsonSchemaType (raw : String) : String :=
  match raw.map Char.toLower with
  | "str" | "string"                  => "string"
  | "int" | "integer"                 => "integer"
  | "num" | "number" | "float"        => "number"
  | "bool" | "boolean"                => "boolean"
  | "arr" | "array" | "list"          => "array"
  | "obj" | "object" | "dict" | "map" => "object"
  | other                             => other

/-- The schema of a parameter. -/
def property (p : ToolParam) : Map N :=
  let prop := Map.insert "type".toList (text (jsonSchemaType p.paramType)) []
  if p.description = "" then prop else Map.insert "description".toList (text p.description) prop

/-- The loop over the parameters. -/
def properties : List ToolParam → Map N → List (Value N) → Map N × List (Value N)
  | [], properties, required      => (properties, required)
  | p :: ps, properties, required =>
    Llama.properties ps (Map.insert p.name.toList (.object (property p)) properties)
      (if p.required then required ++ [text p.name] else required)

def toolToOpenaiFunction (d : ToolDef) : Value N :=
  let (properties, required) := properties d.parameters [] []
  let parameters := json
    [("type", text "object"), ("properties", .object properties), ("required", .array required)]
  json
    [("type", text "function"), ("function", json
      [("name", text d.name), ("description", text d.description), ("parameters", parameters)])]

/-! ### What a template sees of a tool -/

lemma text_inj {s s' : String} : (text s : Value N) = text s' ↔ s = s' := by
  simp [text, String.toList_inj]

/-- An object with the keys of a program tells the values under them. -/
lemma json_inj {e e' : List (String × Value N)} (hnodup : (e.map Prod.fst).Nodup)
    (hkeys : e.map Prod.fst = e'.map Prod.fst) : json e = json e' ↔ e = e' := by
  refine ⟨fun h => ?_, fun h => by rw [h]⟩
  have hlookup {e : List (String × Value N)} (hnodup : (e.map Prod.fst).Nodup) {i : ℕ}
      (hi : i < e.length) : (e.map fun e => (e.1.toList, e.2)).reverse.lookup e[i].1.toList =
        some e[i].2 := by
    apply Map.lookup_of_mem
    · have hfst : (e.map fun e => (e.1.toList, e.2)).map Prod.fst =
          (e.map Prod.fst).map String.toList := by
        simp [Function.comp_def]
      rw [List.map_reverse, List.nodup_reverse, hfst]
      exact hnodup.map fun _ _ => String.toList_inj.mp
    · simp only [List.mem_reverse, List.mem_map]
      exact ⟨e[i], List.getElem_mem hi, rfl⟩
  have hlength : e.length = e'.length := by simpa using congrArg List.length hkeys
  have hmaps := Map.ofEntries_eq_iff.mp (Value.object.inj h)
  refine List.ext_getElem hlength fun i hi hi' => ?_
  have hkey : e[i].1 = e'[i].1 := by
    have hget := List.getElem_of_eq hkeys (by simpa using hi)
    simpa using hget
  have hvalue := hmaps e[i].1.toList
  rw [hlookup hnodup hi, hkey, hlookup (hkeys ▸ hnodup) hi'] at hvalue
  exact Prod.ext hkey (Option.some.inj hvalue)

/-- What the schema of a parameter says. -/
def schema (p : ToolParam) : String × String := (jsonSchemaType p.paramType, p.description)

lemma get_type_property (p : ToolParam) : Map.get "type".toList (property p : Map N) =
    some (text (jsonSchemaType p.paramType)) := by
  have hne : "type".toList ≠ "description".toList := by decide
  rw [property]
  split_ifs
  · exact Map.get_insert_self _ _ _
  · exact (Map.get_insert_of_ne hne _ _).trans (Map.get_insert_self _ _ _)

lemma get_description_property (p : ToolParam) : Map.get "description".toList (property p : Map N) =
    if p.description = "" then none else some (text p.description) := by
  have hne : "description".toList ≠ "type".toList := by decide
  rw [property]
  split_ifs
  · exact Map.get_insert_of_ne hne _ _
  · exact Map.get_insert_self _ _ _

lemma property_eq_iff {p q : ToolParam} :
    (property p : Map N) = property q ↔ schema p = schema q := by
  constructor
  · intro h
    have htype := congrArg (Map.get "type".toList) h
    have hdescription := congrArg (Map.get "description".toList) h
    rw [get_type_property, get_type_property, Option.some.injEq, text_inj] at htype
    rw [get_description_property, get_description_property] at hdescription
    apply Prod.ext htype
    split_ifs at hdescription with hp hq hq
    · exact hp.trans hq.symm
    · exact text_inj.mp (Option.some.inj hdescription)
  · intro h
    obtain ⟨htype, hdescription⟩ := Prod.mk.inj h
    rw [property, property, htype, hdescription]

/-- The names of the required parameters. -/
def requiredNames (ps : List ToolParam) : List String := (ps.filter (·.required)).map (·.name)

lemma properties_eq (ps : List ToolParam) (map : Map N) (required : List (Value N)) :
    properties ps map required =
      (ps.foldl (fun map p => Map.insert p.name.toList (.object (property p)) map) map,
        required ++ (requiredNames ps).map text) := by
  induction ps generalizing map required with
  | nil => simp [properties, requiredNames]
  | cons p ps ih =>
    rw [properties, ih]
    cases hp : p.required <;> simp [requiredNames, hp]

/-- Of the parameters of one name, the last one counts. -/
lemma lookup_properties (ps : List ToolParam) (name : String) :
    (ps.map fun p => (p.name.toList, (.object (property p) : Value N))).reverse.lookup name.toList =
      (lastUpdate ToolParam.name name ps).map fun p => .object (property p) := by
  rw [lastUpdate, ← List.map_reverse]
  induction ps.reverse with
  | nil => rfl
  | cons p ps ih =>
    have hcons : ((p.name.toList, (.object (property p) : Value N)) ::
        ps.map fun p => (p.name.toList, (.object (property p) : Value N))).lookup name.toList =
        if name.toList = p.name.toList then some (.object (property p))
        else (ps.map fun p => (p.name.toList, (.object (property p) : Value N))).lookup
          name.toList := Map.get_cons ..
    rw [List.map_cons, hcons, List.find?_cons, ih]
    by_cases hname : p.name = name
    · simp [hname]
    · simp [hname, String.toList_inj, Ne.symm hname]

lemma ofEntries_properties (ps ps' : List ToolParam) :
    Map.ofEntries (ps.map fun p => (p.name.toList, (.object (property p) : Value N))) =
        Map.ofEntries (ps'.map fun p => (p.name.toList, .object (property p))) ↔
      ∀ name, (lastUpdate ToolParam.name name ps).map schema =
        (lastUpdate ToolParam.name name ps').map schema := by
  have hobject (p q : Option ToolParam) : (p.map fun p => (.object (property p) : Value N)) =
      (q.map fun p => .object (property p)) ↔ p.map schema = q.map schema := by
    cases p <;> cases q <;> simp [property_eq_iff]
  rw [Map.ofEntries_eq_iff]
  constructor
  · intro h name
    rw [← hobject, ← lookup_properties, ← lookup_properties, h]
  · intro h key
    have hkey := h (String.ofList key)
    rw [← hobject, ← lookup_properties, ← lookup_properties, String.toList_ofList] at hkey
    exact hkey

/-- Tools with the same name and description, the same required parameters in the same order, and
under each name the same type, as JSON schema has it, and description of the last parameter of this
name. -/
structure SameFunction (d d' : ToolDef) : Prop where
  name : d.name = d'.name
  description : d.description = d'.description
  required : requiredNames d.parameters = requiredNames d'.parameters
  parameters : ∀ name, (lastUpdate ToolParam.name name d.parameters).map schema =
    (lastUpdate ToolParam.name name d'.parameters).map schema

lemma toolToOpenaiFunction_eq_iff (d d' : ToolDef) :
    (toolToOpenaiFunction d : Value N) = toolToOpenaiFunction d' ↔ SameFunction d d' := by
  have hfold (ps : List ToolParam) :
      ps.foldl (fun map p => Map.insert p.name.toList (.object (property p) : Value N) map) [] =
        Map.ofEntries (ps.map fun p => (p.name.toList, .object (property p))) := by
    rw [Map.ofEntries, List.foldl_map]
  have htexts (names names' : List String) :
      names.map (text : String → Value N) = names'.map text ↔ names = names' :=
    (List.map_injective_iff.mpr fun _ _ => text_inj.mp).eq_iff
  rw [toolToOpenaiFunction, toolToOpenaiFunction]
  simp only [properties_eq, hfold, List.nil_append]
  have hstructure : SameFunction d d' ↔ d.name = d'.name ∧ d.description = d'.description ∧
      requiredNames d.parameters = requiredNames d'.parameters ∧
        ∀ name, (lastUpdate ToolParam.name name d.parameters).map schema =
          (lastUpdate ToolParam.name name d'.parameters).map schema :=
    ⟨fun h => ⟨h.name, h.description, h.required, h.parameters⟩,
      fun h => ⟨h.1, h.2.1, h.2.2.1, h.2.2.2⟩⟩
  rw [hstructure]
  simp [json_inj, text_inj, htexts, ofEntries_properties, and_comm]

/-! ### Prompts -/

structure ChatMsg where
  role : String
  content : String
  deriving DecidableEq, Repr

/-- The template engine: `add_template` and `render`. -/
structure Jinja (N : Type) where
  parse : String → Except String Unit
  render : String → Value N → Except String String

/-- What is asked of a model for its chats. `T` are its templates, `M` its messages. -/
structure ChatModel (T M : Type) where
  chatTemplate : Except String T
  toStr : T → Option String
  newMessage : ChatMsg → Except String M
  applyChatTemplate : T → List M → Bool → Except String String

/-- What a template is rendered with. -/
def context (messages : List ChatMsg) (tools : List ToolDef)
    (addGenerationPrompt enableThinking : Bool) : Value N :=
  json
    [("messages", .array (messages.map fun m =>
        json [("role", text m.role), ("content", text m.content)])),
      ("tools", .array (tools.map toolToOpenaiFunction)),
      ("add_generation_prompt", .bool addGenerationPrompt),
      ("enable_thinking", .bool enableThinking)]

def renderChat (jinja : Jinja N) (template : String) (messages : List ChatMsg)
    (tools : List ToolDef) (addGenerationPrompt enableThinking : Bool) : Except String String :=
  match jinja.parse template with
  | .error e => .error s!"jinja parse: {e}"
  | .ok ()   =>
    match jinja.render template (context messages tools addGenerationPrompt enableThinking) with
    | .error e => .error s!"jinja render: {e}"
    | .ok out  => .ok out

section Models

variable {T M : Type} (model : ChatModel T M) (jinja : Jinja N)

def buildChatPrompt (messages : List ChatMsg) (addAssistantPrefix : Bool) : Except String String :=
  match model.chatTemplate with
  | .error e     => .error s!"chat_template: {e}"
  | .ok template =>
    match messages.mapM model.newMessage with
    | .error e => .error s!"LlamaChatMessage::new: {e}"
    | .ok chat =>
      match model.applyChatTemplate template chat addAssistantPrefix with
      | .error e => .error s!"apply_chat_template: {e}"
      | .ok out  => .ok out

def buildGemma4Chat (systemPrompt : Option String) (userText : String) : String :=
  let system := match systemPrompt with
    | some sys => if sys = "" then "" else "<|turn>system\n" ++ sys ++ "<turn|>\n"
    | none     => ""
  system ++ "<|turn>user\n" ++ userText ++ "<turn|>\n" ++ "<|turn>model\n"

/-- The template is one of Gemma 4. -/
def gemma4Template : Option String :=
  match model.chatTemplate with
  | .error _     => none
  | .ok template =>
    match model.toStr template with
    | none      => none
    | some tmpl => if "<|turn>".toList <:+: tmpl.toList then some tmpl else none

def buildSimpleChat (systemPrompt : Option String) (userText : String) (tools : List ToolDef) :
    Except String String :=
  let messages := (systemPrompt.map fun sys => ⟨"system", sys⟩).toList ++ [⟨"user", userText⟩]
  match gemma4Template model with
  | some tmpl =>
    if tools = [] then .ok (buildGemma4Chat systemPrompt userText)
    else renderChat jinja tmpl messages tools true true
  | none      => buildChatPrompt model messages true

end Models

/-! ### What a prompt tells -/

variable {T M : Type} {model : ChatModel T M} {tmpl : String}

lemma context_eq_iff (messages : List ChatMsg) (tools tools' : List ToolDef) :
    (context messages tools true true : Value N) = context messages tools' true true ↔
      List.Forall₂ SameFunction tools tools' := by
  have hmaps : tools.map (toolToOpenaiFunction (N := N)) = tools'.map toolToOpenaiFunction ↔
      List.Forall₂ SameFunction tools tools' := by
    rw [← List.forall₂_eq_eq_eq, List.forall₂_map_left_iff, List.forall₂_map_right_iff]
    simp only [toolToOpenaiFunction_eq_iff]
  rw [← hmaps, context, context]
  simp [json_inj]

/-- An engine that knows no template. -/
def Jinja.refusing : Jinja N := ⟨fun _ => .error "", fun _ _ => .error ""⟩

/-- The template is asked only where there are tools. -/
lemma refusing_eq_ok_iff (hmodel : gemma4Template model = some tmpl) {systemPrompt : Option String}
    {userText : String} {tools : List ToolDef} :
    (∃ prompt, buildSimpleChat model (Jinja.refusing : Jinja N) systemPrompt userText tools =
      .ok prompt) ↔ tools = [] := by
  by_cases htools : tools = []
  · simp [buildSimpleChat, hmodel, htools]
  · simp [buildSimpleChat, hmodel, htools, renderChat, Jinja.refusing]

/-- Two series of tools make the same prompt, whatever the template does with them, exactly if they
are the same functions in the same order. -/
theorem buildSimpleChat_tools_iff (N : Type) (hmodel : gemma4Template model = some tmpl)
    (systemPrompt : Option String) (userText : String) (tools tools' : List ToolDef) :
    (∀ jinja : Jinja N, buildSimpleChat model jinja systemPrompt userText tools =
        buildSimpleChat model jinja systemPrompt userText tools') ↔
      List.Forall₂ SameFunction tools tools' := by
  by_cases htools : tools = []
  · subst htools
    rw [List.forall₂_nil_left_iff]
    constructor
    · intro h
      rw [← refusing_eq_ok_iff (N := N) hmodel, ← h, refusing_eq_ok_iff hmodel]
    · rintro rfl
      exact fun _ => rfl
  by_cases htools' : tools' = []
  · subst htools'
    rw [List.forall₂_nil_right_iff]
    constructor
    · intro h
      rw [← refusing_eq_ok_iff (N := N) hmodel, h, refusing_eq_ok_iff hmodel]
    · intro h
      exact absurd h htools
  have hchat (jinja : Jinja N) {tools : List ToolDef} (h : tools ≠ []) :
      buildSimpleChat model jinja systemPrompt userText tools = renderChat jinja tmpl
        ((systemPrompt.map fun sys => ⟨"system", sys⟩).toList ++ [⟨"user", userText⟩]) tools true
          true := by
    simp [buildSimpleChat, hmodel, h]
  generalize (systemPrompt.map fun sys => (⟨"system", sys⟩ : ChatMsg)).toList ++
    [⟨"user", userText⟩] = messages at hchat
  rw [← context_eq_iff (N := N) messages]
  constructor
  · intro h
    classical
    -- an engine that tells this context from all others
    have hprobe := h
      { parse := fun _ => .ok ()
        render := fun _ v => .ok (if v = context messages tools true true then "same" else "") }
    rw [hchat _ htools, hchat _ htools', renderChat, renderChat] at hprobe
    simp only [if_true, Except.ok.injEq] at hprobe
    by_contra hne
    rw [if_neg (Ne.symm hne)] at hprobe
    exact absurd hprobe (by decide)
  · intro h jinja
    rw [hchat _ htools, hchat _ htools', renderChat, renderChat, h]

def demoModel : ChatModel String ChatMsg where
  chatTemplate := .ok "<|turn>"
  toStr := some
  newMessage := .ok
  applyChatTemplate _ _ _ := .ok ""

/-- A tool with two parameters. -/
def demoTool (type : String) : ToolDef :=
  ⟨"search", "Find.", [⟨"count", type, false, ""⟩, ⟨"query", "str", true, "What to find."⟩]⟩

theorem buildSimpleChat_tools_iff_demo :
    (∀ jinja : Jinja ℕ, buildSimpleChat demoModel jinja none "hi" [demoTool "int"] =
        buildSimpleChat demoModel jinja none "hi" [demoTool "INTEGER"]) ↔
      List.Forall₂ SameFunction [demoTool "int"] [demoTool "INTEGER"] := by
  have hmodel : gemma4Template demoModel = some "<|turn>" := by decide
  exact buildSimpleChat_tools_iff ℕ hmodel none "hi" _ _

lemma buildGemma4Chat_eq (systemPrompt : Option String) (userText : String) :
    buildGemma4Chat systemPrompt userText =
      renderTurns Gemma4Format [.user userText] systemPrompt := by
  cases systemPrompt with
  | none => simp [buildGemma4Chat, renderTurns, renderTurn, Turn.user, Gemma4Format, toString]
  | some sys =>
    by_cases h : sys = ""
    · simp [buildGemma4Chat, renderTurns, renderTurn, Turn.user, Gemma4Format, toString, h]
    · apply String.toList_inj.mp
      simp [buildGemma4Chat, renderTurns, renderTurn, Turn.user, Gemma4Format, toString, h]

lemma buildGemma4Chat_getD (systemPrompt : Option String) (userText : String) :
    buildGemma4Chat systemPrompt userText =
      buildGemma4Chat (some (systemPrompt.getD "")) userText := by
  cases systemPrompt <;> simp [buildGemma4Chat]

lemma effective_user (systemPrompt : Option String) (userText : String) :
    effective [.user userText] systemPrompt = if systemPrompt.getD "" = "" then [⟨.user, userText⟩]
      else [⟨.system, systemPrompt.getD ""⟩, ⟨.user, userText⟩] := by
  simp [effective, Turn.user, Speaker.of]

/-- Without tools the prompt is the one that the server itself renders of one turn. It tells the
text and the system prompt, if no text and no system prompt holds the marker. -/
theorem buildSimpleChat_eq_iff (hmodel : gemma4Template model = some tmpl) (jinja : Jinja N)
    (systemPrompt systemPrompt' : Option String) (userText userText' : String) :
    buildSimpleChat model jinja systemPrompt userText [] =
        .ok (renderTurns Gemma4Format [.user userText] systemPrompt) ∧
      ((∀ s ∈ userText :: userText' :: (systemPrompt.toList ++ systemPrompt'.toList),
          ¬ "<turn|>".toList <:+: s.toList) →
        (buildSimpleChat model jinja systemPrompt userText [] =
            buildSimpleChat model jinja systemPrompt' userText' [] ↔
          userText = userText' ∧ systemPrompt.getD "" = systemPrompt'.getD "")) := by
  have hchat (systemPrompt : Option String) (userText : String) :
      buildSimpleChat model jinja systemPrompt userText [] =
        .ok (renderTurns Gemma4Format [.user userText] systemPrompt) := by
    simp only [buildSimpleChat, hmodel, if_true, buildGemma4Chat_eq]
  refine ⟨hchat _ _, fun hmarker => ?_⟩
  rw [hchat, hchat, Except.ok.injEq]
  constructor
  · intro h
    have hturns {s : String} (hs : ¬ "<turn|>".toList <:+: s.toList) :
        ∀ t ∈ [Turn.user s], ¬ "<turn|>".toList <:+: t.content.toList := by
      intro t ht
      rw [List.mem_singleton.mp ht]
      exact hs
    have htext := hturns (hmarker userText (by simp))
    have htext' := hturns (hmarker userText' (by simp))
    have hsys : ∀ sys ∈ systemPrompt, ¬ "<turn|>".toList <:+: sys.toList :=
      fun sys hs => hmarker sys (by simp [Option.mem_def.mp hs])
    have hsys' : ∀ sys ∈ systemPrompt', ¬ "<turn|>".toList <:+: sys.toList :=
      fun sys hs => hmarker sys (by simp [Option.mem_def.mp hs])
    rw [← format_gemma4] at h
    have heffective := gemma4.effective_eq htext hsys htext' hsys' h
    rw [effective_user, effective_user] at heffective
    split_ifs at heffective with hnone hnone' hnone'
    · simpa [hnone, hnone'] using heffective
    · simp at heffective
    · simp at heffective
    · simpa [and_comm] using heffective
  · rintro ⟨rfl, h⟩
    rw [← buildGemma4Chat_eq, ← buildGemma4Chat_eq, buildGemma4Chat_getD, h,
      ← buildGemma4Chat_getD]

def demoJinja : Jinja ℕ := ⟨fun _ => .ok (), fun _ _ => .ok ""⟩

theorem buildSimpleChat_eq_iff_demo :
    buildSimpleChat demoModel demoJinja (some "<turn|>") "hi" [] =
        .ok (renderTurns Gemma4Format [.user "hi"] (some "<turn|>")) ∧
      buildSimpleChat demoModel demoJinja (some "") "hi" [] =
        buildSimpleChat demoModel demoJinja none "hi" [] ∧
      buildSimpleChat demoModel demoJinja none "hi" [] ≠
        buildSimpleChat demoModel demoJinja none "<|turn>" [] := by
  have hmodel : gemma4Template demoModel = some "<|turn>" := by decide
  have hrender := (buildSimpleChat_eq_iff hmodel demoJinja (some "<turn|>") none "hi" "").1
  have hsame := (buildSimpleChat_eq_iff hmodel demoJinja (some "") none "hi" "hi").2 (by decide)
  have hdiffer := (buildSimpleChat_eq_iff hmodel demoJinja none none "hi" "<|turn>").2 (by decide)
  refine ⟨hrender, hsame.mpr ⟨rfl, rfl⟩, fun h => ?_⟩
  exact absurd (hdiffer.mp h).1 (by decide)

end ModelApi.Llama
