import ModelApi.Gemma.Recovery

/-!
# Normalised calls

A parsed call carries its name twice, beside the arguments and under the key `tool` among them.
Each format builds both on its own.
-/

namespace ModelApi.Gemma

open Lib Lib.Str

variable {N : Type} {json : SerdeJson N} {isAlphanumeric : Char → Bool} {body : Str}

/-- The name is not empty, and the arguments are an object that has it under `tool`. -/
structure ParsedCall.Normalised (p : ParsedCall N) : Prop where
  name_ne_nil : p.name ≠ []
  tool_eq : ∃ map, p.args = .object map ∧ Map.get TOOL map = some (.string p.name)

/-- The parser returns normalised calls only. -/
def Normalises (toolFormat : ToolFormat N) (body : Str) : Prop :=
  ∀ p, toolFormat.parseBody body = .ok (some p) → p.Normalised

/-- A value with a member is an object. -/
lemma Value.exists_object_of_get {v w : Value N} {key : Str} (h : v.get key = some w) :
    ∃ map, v = .object map := by
  cases v with
  | object map => exact ⟨map, rfl⟩
  | null | bool _ | number _ | string _ | array _ => cases h

lemma Value.asStr_eq_some {v : Value N} {s : Str} : v.asStr = some s ↔ v = .string s := by
  cases v <;> simp [Value.asStr]

/-- A call read off a JSON value that names it by a string. -/
lemma named_eq_some {value : Option (Value N)} {nameValue : Value N → Option (Value N)}
    {args : Value N → Str → Value N} {p : ParsedCall N} :
    (value.bind fun v => ((nameValue v).bind Value.asStr).map fun name =>
        (⟨name, args v name⟩ : ParsedCall N)) = some p ↔
      ∃ v, value = some v ∧ nameValue v = some (.string p.name) ∧ p.args = args v p.name := by
  simp only [Option.bind_eq_some_iff, Option.map_eq_some_iff, Value.asStr_eq_some,
    exists_eq_right]
  constructor
  · rintro ⟨v, hv, name, hname, rfl⟩
    exact ⟨v, hv, hname, rfl⟩
  · rintro ⟨v, hv, hname, hargs⟩
    exact ⟨v, hv, p.name, hname, by rw [← hargs]⟩

/-! ### XML -/

namespace XmlToolFormat

/-- The body is a name by itself, with nothing of JSON. -/
def Bare (isAlphanumeric : Char → Bool) (body : Str) : Prop :=
  ¬ ['{'] <+: body.trim ∧ isBareName isAlphanumeric body.trim = true

instance : Decidable (Bare isAlphanumeric body) := inferInstanceAs (Decidable (_ ∧ _))

/-- What a JSON body is named by. -/
def nameValue (v : Value N) : Option (Value N) := (v.get TOOL).or (v.get "name".toList)

/-- The body names a tool, unless it is no call at all. -/
def Named (json : SerdeJson N) (isAlphanumeric : Char → Bool) (body : Str) : Prop :=
  if Bare isAlphanumeric body then body.trim ≠ []
  else ∀ v, json.fromStr body.trim = some v → nameValue v ≠ some (.string [])

lemma parseBody_of_bare (h : Bare isAlphanumeric body) :
    parseBody json isAlphanumeric body =
      some ⟨body.trim, .object (Map.insert TOOL (.string body.trim) [])⟩ := if_pos h

lemma parseBody_of_not_bare (h : ¬ Bare isAlphanumeric body) {p : ParsedCall N} :
    parseBody json isAlphanumeric body = some p ↔
      ∃ v, json.fromStr body.trim = some v ∧ nameValue v = some (.string p.name) ∧
        p.args = v.mapObject (Map.insert TOOL (.string p.name)) := by
  have hparse : parseBody json isAlphanumeric body = (json.fromStr body.trim).bind fun v =>
      ((nameValue v).bind Value.asStr).map fun name =>
        ⟨name, v.mapObject (Map.insert TOOL (.string name))⟩ := if_neg h
  rw [hparse, named_eq_some]

lemma normalises_iff :
    Normalises (XmlToolFormat json isAlphanumeric) body ↔ Named json isAlphanumeric body := by
  by_cases hbare : Bare isAlphanumeric body
  · rw [Named, if_pos hbare]
    constructor
    · intro h
      exact (h _ (congrArg Except.ok (parseBody_of_bare hbare))).name_ne_nil
    · intro hne p hp
      have hparse := Except.ok.inj hp
      rw [parseBody_of_bare hbare] at hparse
      cases hparse
      exact ⟨hne, _, rfl, Map.get_insert_self _ _ _⟩
  · rw [Named, if_neg hbare]
    constructor
    · intro h v hv hname
      have hparse : parseBody json isAlphanumeric body =
          some ⟨[], v.mapObject (Map.insert TOOL (.string []))⟩ :=
        (parseBody_of_not_bare hbare).mpr ⟨v, hv, hname, rfl⟩
      exact (h _ (congrArg Except.ok hparse)).name_ne_nil rfl
    · intro h p hp
      obtain ⟨v, hv, hname, hargs⟩ := (parseBody_of_not_bare hbare).mp (Except.ok.inj hp)
      have hobject : ∃ map, v = .object map := by
        rcases Option.or_eq_some_iff.mp hname with htool | ⟨-, hname⟩
        · exact Value.exists_object_of_get htool
        · exact Value.exists_object_of_get hname
      obtain ⟨map, rfl⟩ := hobject
      refine ⟨fun hnil => h _ hv (hnil ▸ hname), _, hargs, Map.get_insert_self _ _ _⟩

end XmlToolFormat

/-! ### ChatML -/

namespace ChatMLToolFormat

def nameValue (v : Value N) : Option (Value N) := (v.get "name".toList).or (v.get TOOL)

def arguments (v : Value N) : Map N := ((v.get "arguments".toList).bind Value.asObject).getD []

/-- The body names a tool, and its arguments name no other one. -/
def Named (json : SerdeJson N) (body : Str) : Prop :=
  ∀ v name, json.fromStr body.trim = some v → nameValue v = some (.string name) →
    name ≠ [] ∧ ∀ w, (arguments v).reverse.lookup TOOL = some w → w = .string name

lemma parseBody_eq_some {p : ParsedCall N} : parseBody json body = some p ↔
    ∃ v, json.fromStr body.trim = some v ∧ nameValue v = some (.string p.name) ∧
      p.args = .object ((arguments v).foldl (fun out e => Map.insert e.1 e.2 out)
        (Map.insert TOOL (.string p.name) [])) := by
  have hparse : parseBody json body = (json.fromStr body.trim).bind fun v =>
      ((nameValue v).bind Value.asStr).map fun name =>
        ⟨name, .object ((arguments v).foldl (fun out e => Map.insert e.1 e.2 out)
          (Map.insert TOOL (.string name) []))⟩ := rfl
  rw [hparse, named_eq_some]

/-- The last argument under `tool` hides the name that was inserted first. -/
lemma get_tool (v : Value N) (name : Str) :
    Map.get TOOL ((arguments v).foldl (fun out e => Map.insert e.1 e.2 out)
      (Map.insert TOOL (.string name) [])) =
      some (((arguments v).reverse.lookup TOOL).getD (.string name)) := by
  rw [Map.get_foldl_insert, Map.get_insert_self, Option.or_some]

lemma normalises_iff : Normalises (ChatMLToolFormat json) body ↔ Named json body := by
  constructor
  · intro h v name hv hname
    have hparse : parseBody json body = some ⟨name, .object ((arguments v).foldl
        (fun out e => Map.insert e.1 e.2 out) (Map.insert TOOL (.string name) []))⟩ :=
      parseBody_eq_some.mpr ⟨v, hv, hname, rfl⟩
    obtain ⟨hne, map, hmap, htool⟩ := h _ (congrArg Except.ok hparse)
    refine ⟨hne, fun w hw => ?_⟩
    cases hmap
    rw [get_tool, hw] at htool
    exact Option.some.inj htool
  · intro h p hp
    obtain ⟨v, hv, hname, hargs⟩ := parseBody_eq_some.mp (Except.ok.inj hp)
    obtain ⟨hne, htool⟩ := h v p.name hv hname
    refine ⟨hne, _, hargs, ?_⟩
    rw [get_tool]
    cases hlookup : (arguments v).reverse.lookup TOOL with
    | none => rfl
    | some w => rw [htool w hlookup, Option.getD_some]

end ChatMLToolFormat

/-! ### Gemma 4 -/

namespace Gemma4ToolFormat

/-- The name is checked, and inserted behind the arguments. -/
lemma normalised_of_parseBody {p : ParsedCall N}
    (h : parseBody json isAlphanumeric body = .ok (some p)) : p.Normalised := by
  rw [parseBody] at h
  by_cases hempty : stripped body = []
  · rw [if_pos hempty] at h
    cases h
  rw [if_neg hempty] at h
  cases hcall : parseCall json isAlphanumeric (stripped body) with
  | error e =>
    rw [hcall] at h
    cases h
  | ok call =>
    rw [hcall] at h
    cases call with
    | none => cases h
    | some call =>
      obtain ⟨name, argsObj⟩ := call
      by_cases hname : name = []
      · simp [hname, bind, Except.bind, pure, Except.pure] at h
      · simp only [bind, Except.bind, if_neg hname, pure, Except.pure, Except.ok.injEq,
          Option.some.injEq] at h
        subst h
        exact ⟨hname, _, rfl, Map.get_insert_self _ _ _⟩

end Gemma4ToolFormat

/-! ### All formats -/

/-- What each format leaves to the model. -/
def Format.Named (json : SerdeJson N) (isAlphanumeric : Char → Bool) (body : Str) : Format → Prop
  | .xml    => XmlToolFormat.Named json isAlphanumeric body
  | .chatML => ChatMLToolFormat.Named json body
  | .gemma4 => True

/-- Calls are normalised where the body names a tool, and names it once. -/
theorem Format.toolFormat_normalises_iff (json : SerdeJson N) (isAlphanumeric : Char → Bool)
    (format : Format)
    (body : Str) :
    Normalises (format.toolFormat json isAlphanumeric) body ↔
      format.Named json isAlphanumeric body := by
  cases format with
  | xml => exact XmlToolFormat.normalises_iff
  | chatML => exact ChatMLToolFormat.normalises_iff
  | gemma4 => exact ⟨fun _ => trivial, fun _ _ h => Gemma4ToolFormat.normalised_of_parseBody h⟩

def otherTool : Str := "\x7b\"name\":\"a\",\"arguments\":\x7b\"tool\":\"b\"\x7d\x7d".toList

/-- What the two places name. -/
def ParsedCall.names (p : ParsedCall N) : Str × Option Str :=
  (p.name, (p.args.get TOOL).bind Value.asStr)

lemma ParsedCall.Normalised.names_eq {p : ParsedCall N} (h : p.Normalised) :
    p.names = (p.name, some p.name) := by
  obtain ⟨map, hmap, htool⟩ := h.tool_eq
  rw [names, hmap, Value.get, htool]
  rfl

/-- An empty XML body is a call without a name, and arguments in ChatML name another tool. -/
theorem not_normalises :
    (¬ Normalises (Format.xml.toolFormat (strictJson readDigits) isAsciiAlphanumeric) []) ∧
      ¬ Normalises (Format.chatML.toolFormat (strictJson readDigits) isAsciiAlphanumeric)
        otherTool := by
  constructor
  · intro h
    exact (h _ rfl).name_ne_nil rfl
  · intro h
    have hnames : (ChatMLToolFormat.parseBody (strictJson readDigits) otherTool).map
        ParsedCall.names = some ("a".toList, some "b".toList) := by
      decide +kernel
    obtain ⟨p, hp, hpnames⟩ := Option.map_eq_some_iff.mp hnames
    have hnormal := h p (congrArg Except.ok hp)
    rw [hnormal.names_eq] at hpnames
    obtain ⟨hname, htool⟩ := Prod.mk.inj hpnames
    rw [hname] at htool
    revert htool
    decide

end ModelApi.Gemma
