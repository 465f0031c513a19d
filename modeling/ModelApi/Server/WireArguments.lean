import ModelApi.Gemma.Compact
import ModelApi.Server.Extraction

/-!
# Arguments on the wire

What becomes of the arguments of a call between the model's text and the client: they are read,
the name is inserted under `tool`, `tool` is removed, and they are written again.
-/

namespace ModelApi.Server

open Lib Lib.Str Gemma

variable {N : Type}

/-- A call as the model writes it, behind a gap. -/
structure WrittenCall (N : Type) where
  gap : Str
  name : Str
  args : Map N

namespace WrittenCall

/-- What stands between the markers. -/
def body (showNumber : N → Str) (c : WrittenCall N) : Str :=
  "call:".toList ++ (c.name ++ write showNumber (.object c.args))

/-- The calls in a row, and what stands behind them. -/
def text (showNumber : N → Str) (last : Str) : List (WrittenCall N) → Str
  | []         => last
  | c :: calls => c.gap ++ ("<|tool_call>".toList ++
      (c.body showNumber ++ ("<tool_call|>".toList ++ text showNumber last calls)))

/-- The library reads what it wrote. -/
def ReadsBack (json : SerdeJson N) (showNumber : N → Str) (v : Value N) : Prop :=
  json.fromStr (write showNumber v) = some v

/-- A call that the model may write: no marker stands where it is not one, and the library reads
its arguments back, with and without `tool`. -/
structure WellFormed (json : SerdeJson N) (showNumber : N → Str) (c : WrittenCall N) : Prop where
  gap : ¬ "<|tool_call>".toList <:+: c.gap
  ne_nil : c.name ≠ []
  ident : ∀ d ∈ c.name, isIdentByte d = true
  strings : (Value.object c.args).All fun s => ¬ "<tool_call|>".toList <:+: s
  readsBack : ReadsBack json showNumber (.object c.args)
  readsBack_remove : ReadsBack json showNumber (.object (Map.remove TOOL c.args))

/-- The call that is found, as the `i`-th one. -/
def found (showNumber : N → Str) (i : ℕ) (c : WrittenCall N) : ToolCall :=
  ⟨s!"tc-{i}", String.ofList c.name,
    String.ofList (write showNumber (.object (Map.remove TOOL c.args)))⟩

variable {json : SerdeJson N} {isAlphanumeric : Char → Bool} {showNumber : N → Str}
  {c : WrittenCall N}

/-- In front of the object there is nothing that a text could start with. -/
lemma not_infix_body {ps : Str} (hident : ∀ d ∈ c.name, isIdentByte d = true)
    (h : ¬ ('<' :: ps) <:+: write showNumber (.object c.args)) :
    ¬ ('<' :: ps) <:+: c.body showNumber := by
  have hcall : '<' ∉ "call:".toList := by decide
  have hname : '<' ∉ c.name := fun hmem => absurd (hident _ hmem) (by decide)
  exact not_infix_append hcall (not_infix_append hname h)

/-- The body is read strictly, and the name is inserted. -/
lemma WellFormed.parseBody (h : c.WellFormed json showNumber) (hnumber : ∀ n, '<' ∉ showNumber n) :
    Gemma4ToolFormat.parseBody json isAlphanumeric (c.body showNumber) =
      .ok (some ⟨c.name, .object (Map.insert TOOL (.string c.name) c.args)⟩) := by
  have hcall : Call c.name [] (write showNumber (.object c.args)) :=
    ⟨h.ne_nil, h.ident, space_nil, _, rfl⟩
  have htoken : ¬ Gemma4ToolFormat.QUOTE_TOKEN <:+: c.body showNumber := by
    apply not_infix_body h.ident
    exact not_infix_of_all unwritten_quoteToken hnumber (v := .object c.args)
      (Value.all_of_forall (fun _ => trivial) _)
  have hnormalize : Gemma4ToolFormat.normalize (c.body showNumber) =
      "call:".toList ++ (c.name ++ ([] ++ (write showNumber (.object c.args) ++ []))) := by
    rw [Gemma4ToolFormat.normalize, if_neg (by simpa using contains_eq_false.mpr htoken), body,
      List.append_nil, List.nil_append]
  have hargs : Gemma4ToolFormat.parseArguments json (write showNumber (.object c.args)) =
      .ok (some (.object c.args)) := by
    rw [Gemma4ToolFormat.parseArguments, h.readsBack]
  have hne : c.name ++ ([] ++ write showNumber (.object c.args)) ≠ [] := by simp [h.ne_nil]
  rw [Gemma4ToolFormat.parseBody, hcall.stripped_eq space_nil hnormalize, if_neg hne,
    hcall.parseCall_eq, hargs]
  simp [Except.map, Value.asObject, h.ne_nil]

/-- The bodies between the markers are those that were written. -/
lemma markedBodies_text {calls : List (WrittenCall N)} {last : Str}
    (hcalls : ∀ c ∈ calls, c.WellFormed json showNumber) (hnumber : ∀ n, '<' ∉ showNumber n)
    (hlast : ¬ "<|tool_call>".toList <:+: last) :
    markedBodies "<|tool_call>".toList "<tool_call|>".toList (text showNumber last calls) =
      calls.map (body showNumber) := by
  induction calls with
  | nil => exact markedBodies_of_no_open (splitFirst_eq_none.mpr hlast)
  | cons c calls ih =>
    obtain ⟨hc, hcalls⟩ := List.forall_mem_cons.mp hcalls
    have hclose : ¬ "<tool_call|>".toList <:+: c.body showNumber := by
      have hunwritten : Unwritten (fun s => ¬ "<tool_call|>".toList <:+: s)
          "tool_call|>".toList := unwritten_of_not_infix (by decide) (by decide)
      exact not_infix_body hc.ident (not_infix_of_all hunwritten hnumber hc.strings)
    have hopen := splitFirst_append (by decide : '<' ∉ "|tool_call>".toList) hc.gap
      (c.body showNumber ++ ("<tool_call|>".toList ++ text showNumber last calls))
    have hbody := splitFirst_append (by decide : '<' ∉ "tool_call|>".toList) hclose
      (text showNumber last calls)
    rw [text, List.map_cons, ← ih hcalls]
    exact markedBodies_of_body hopen hbody (by decide)

/-- The calls that are found are those that were written, less what they have under `tool`. -/
lemma foldlM_collectCall {calls : List (WrittenCall N)}
    (hwrite : ∀ v, json.toString v = some (write showNumber v))
    (hcalls : ∀ c ∈ calls, c.WellFormed json showNumber) (hnumber : ∀ n, '<' ∉ showNumber n)
    (before : List ToolCall) :
    (calls.map (body showNumber)).foldlM
        (collectCall json (Gemma4ToolFormat json isAlphanumeric)) before =
      .ok (before ++ calls.mapIdx fun i c => c.found showNumber (before.length + i)) := by
  induction calls generalizing before with
  | nil => simp [pure, Except.pure]
  | cons c calls ih =>
    obtain ⟨hc, hcalls⟩ := List.forall_mem_cons.mp hcalls
    have hcollect : collectCall json (Gemma4ToolFormat json isAlphanumeric) before
        (c.body showNumber) = .ok (before ++ [c.found showNumber before.length]) := by
      have hparse : (Gemma4ToolFormat json isAlphanumeric).parseBody =
          Gemma4ToolFormat.parseBody json isAlphanumeric := rfl
      rw [collectCall, hparse, hc.parseBody hnumber]
      simp [pushCall, found, Value.mapObject, Map.remove_insert_self, hwrite]
    rw [List.map_cons, List.foldlM_cons, hcollect, ok_bind, ih hcalls]
    simp [List.mapIdx_cons, Nat.add_assoc, Nat.add_comm 1]

/-- The call is the `i`-th one, and its arguments are read as those that were written. -/
structure Delivered (json : SerdeJson N) (i : ℕ) (c : WrittenCall N) (call : ToolCall) : Prop where
  id_eq : call.id = s!"tc-{i}"
  name_eq : call.name = String.ofList c.name
  args_eq : json.fromStr call.argumentsJson.toList = some (.object c.args)

/-- Exactly one call is found for each that was written, in order. -/
def AllDelivered (json : SerdeJson N) (calls : List (WrittenCall N)) (found : List ToolCall) :
    Prop :=
  found.length = calls.length ∧
    ∀ i c call, calls[i]? = some c → found[i]? = some call → Delivered json i c call

lemma WellFormed.delivered_iff (h : c.WellFormed json showNumber) (i : ℕ) :
    Delivered json i c (c.found showNumber i) ↔ Map.get TOOL c.args = none := by
  have hread : json.fromStr (c.found showNumber i).argumentsJson.toList =
      some (.object (Map.remove TOOL c.args)) := by
    rw [found, String.toList_ofList]
    exact h.readsBack_remove
  constructor
  · intro hdelivered
    have hargs := hdelivered.args_eq
    rw [hread] at hargs
    have hremove : Map.remove TOOL c.args = c.args :=
      Value.object.inj (Option.some.inj hargs)
    rw [← hremove]
    exact Map.get_remove_self TOOL c.args
  · intro hget
    refine ⟨rfl, rfl, ?_⟩
    rw [hread, Map.remove_eq_self hget]

end WrittenCall

open WrittenCall

variable {json : SerdeJson N} {isAlphanumeric : Char → Bool} {showNumber : N → Str}

/-- What the extraction finds in the text of the calls. -/
lemma extractToolCalls_text {calls : List (WrittenCall N)} {last : Str}
    (hwrite : ∀ v, json.toString v = some (write showNumber v))
    (hnumber : ∀ n, '<' ∉ showNumber n)
    (hcalls : ∀ c ∈ calls, c.WellFormed json showNumber)
    (hlast : ¬ "<|tool_call>".toList <:+: last) :
    extractToolCalls json (Gemma4ToolFormat json isAlphanumeric) (text showNumber last calls) =
      .ok (calls.mapIdx fun i c => c.found showNumber i) := by
  have hbodies : markedBodies (Gemma4ToolFormat json isAlphanumeric).openMarker
      (Gemma4ToolFormat json isAlphanumeric).closeMarker (text showNumber last calls) =
      calls.map (body showNumber) := markedBodies_text hcalls hnumber hlast
  have hmarkers : ¬ ((Gemma4ToolFormat json isAlphanumeric).openMarker = [] ∨
      (Gemma4ToolFormat json isAlphanumeric).closeMarker = []) := markers_ne_nil .gemma4
  rw [extractToolCalls_eq, if_neg hmarkers, hbodies, foldlM_collectCall hwrite hcalls hnumber]
  simp

/-- The arguments of all calls reach the client unchanged if no call has an argument `tool`, and not
otherwise. -/
theorem extractToolCalls_delivers_iff {calls : List (WrittenCall N)} {last : Str}
    (hwrite : ∀ v, json.toString v = some (write showNumber v))
    (hnumber : ∀ n, '<' ∉ showNumber n)
    (hcalls : ∀ c ∈ calls, c.WellFormed json showNumber)
    (hlast : ¬ "<|tool_call>".toList <:+: last) :
    (∃ found, extractToolCalls json (Gemma4ToolFormat json isAlphanumeric)
        (text showNumber last calls) = .ok found ∧ AllDelivered json calls found) ↔
      ∀ c ∈ calls, Map.get TOOL c.args = none := by
  rw [extractToolCalls_text hwrite hnumber hcalls hlast]
  constructor
  · rintro ⟨found, hfound, -, hall⟩ c hc
    cases hfound
    obtain ⟨i, hi⟩ := List.mem_iff_getElem?.mp hc
    have hget : (calls.mapIdx fun i c => c.found showNumber i)[i]? =
        some (c.found showNumber i) := by
      rw [List.getElem?_mapIdx, hi]
      rfl
    exact ((hcalls c hc).delivered_iff i).mp (hall i c _ hi hget)
  · intro htool
    refine ⟨_, rfl, List.length_mapIdx, fun i c call hi hcall => ?_⟩
    rw [List.getElem?_mapIdx, hi] at hcall
    cases hcall
    have hc := List.mem_of_getElem? hi
    exact ((hcalls c hc).delivered_iff i).mpr (htool c hc)

/-! ### An argument `tool` -/

def showDigits (n : ℕ) : Str := Nat.toDigits 10 n

lemma not_mem_showDigits (n : ℕ) : '<' ∉ showDigits n := by
  intro h
  have hdigit := Nat.isDigit_of_mem_toDigits (by decide) (by decide) h
  revert hdigit
  decide

/-- The library, with natural numbers. -/
def compactJson : SerdeJson ℕ where
  fromStr := fromStr readDigits
  toString v := some (write showDigits v)

/-- A member whose value is `true` is read back. -/
lemma readsBack_flag {k : Str} (hk : StringLit .strict (writeString k) k) :
    ReadsBack compactJson showDigits (.object [(k, .bool true)]) := by
  have htrue : Renders .strict readDigits 126 "true".toList (.value (.bool true)) := .true
  have hkey : KeySep .strict (writeString k ++ [] ++ [':']) k := .quoted hk space_nil
  have hobject := Renders.object (Renders.member space_nil hkey space_nil htrue space_nil)
  apply rendering_strict_iff.mp
  refine ⟨[], _, [], space_nil, hobject, space_nil, ?_⟩
  simp [write, writeMembers]

lemma readsBack_empty : ReadsBack compactJson showDigits (.object []) :=
  rendering_strict_iff.mp
    ⟨[], "\x7b\x7d".toList, [], space_nil, .emptyObject space_nil, space_nil, by decide⟩

/-- A call `f` with one argument that is `true`. -/
def flagCall (k : Str) : WrittenCall ℕ := ⟨"so ".toList, "f".toList, [(k, .bool true)]⟩

lemma wellFormed_flagCall {k : Str} (hk : StringLit .strict (writeString k) k)
    (hmarker : ¬ "<tool_call|>".toList <:+: k)
    (hremove : ReadsBack compactJson showDigits (.object (Map.remove TOOL [(k, .bool true)]))) :
    (flagCall k).WellFormed compactJson showDigits where
  gap := by
    change ¬ "<|tool_call>".toList <:+: "so ".toList
    decide
  ne_nil := List.cons_ne_nil _ _
  ident := by
    have hf : isIdentByte 'f' = true := by decide
    simpa [flagCall] using hf
  strings := ⟨hmarker, trivial, trivial⟩
  readsBack := readsBack_flag hk
  readsBack_remove := hremove

lemma wellFormed_flagCall_a : (flagCall ['a']).WellFormed compactJson showDigits := by
  have ha : StringLit .strict (writeString ['a']) ['a'] :=
    .quoted .plain (.plain (by decide) (by decide) (by decide) .nil) .plain trivial
  exact wellFormed_flagCall ha (by decide) (readsBack_flag ha)

lemma wellFormed_flagCall_tool : (flagCall TOOL).WellFormed compactJson showDigits := by
  have htool : Chars .strict TOOL TOOL :=
    .plain (by decide) (by decide) (by decide) (.plain (by decide) (by decide) (by decide)
      (.plain (by decide) (by decide) (by decide)
        (.plain (by decide) (by decide) (by decide) .nil)))
  exact wellFormed_flagCall (.quoted .plain htool .plain trivial) (by decide) readsBack_empty

/-- A call behind another one. -/
theorem extractToolCalls_delivers_iff_demo :
    ∃ found, extractToolCalls compactJson (Gemma4ToolFormat compactJson isAsciiAlphanumeric)
        (text showDigits " done".toList [flagCall ['a'], flagCall ['a']]) = .ok found ∧
      AllDelivered compactJson [flagCall ['a'], flagCall ['a']] found := by
  apply (extractToolCalls_delivers_iff (fun _ => rfl) not_mem_showDigits ?_ ?_).mpr
  · simp [flagCall, Map.get, TOOL]
  · simp [wellFormed_flagCall_a]
  · decide

/-- An argument `tool` is lost. -/
theorem not_extractToolCalls_delivers :
    ¬ ∀ (calls : List (WrittenCall ℕ)) (last : Str),
      (∀ c ∈ calls, c.WellFormed compactJson showDigits) → ¬ "<|tool_call>".toList <:+: last →
      ∃ found, extractToolCalls compactJson (Gemma4ToolFormat compactJson isAsciiAlphanumeric)
          (text showDigits last calls) = .ok found ∧ AllDelivered compactJson calls found := by
  intro h
  have hcalls : ∀ c ∈ [flagCall TOOL], c.WellFormed compactJson showDigits := by
    simp [wellFormed_flagCall_tool]
  obtain ⟨found, hfound, -, hall⟩ := h [flagCall TOOL] [] hcalls (by decide)
  rw [extractToolCalls_text (fun _ => rfl) not_mem_showDigits hcalls (by decide)] at hfound
  cases hfound
  have hdelivered := (wellFormed_flagCall_tool.delivered_iff 0).mp (hall 0 _ _ rfl rfl)
  revert hdelivered
  simp [flagCall, Map.get]

end ModelApi.Server
