import ModelApi.Gemma.Drift
import ModelApi.Gemma.ToolFormat

/-!
# Recovery of drifted calls

The body parser reads a call whose arguments are any drifted rendering of an object, and returns
that object.
-/

namespace ModelApi.Gemma

open Lib Lib.Str

variable {N : Type} {number : Str → Option N} {json : SerdeJson N} {isAlphanumeric : Char → Bool}

/-! ### The repair layers in a row -/

lemma isAscii_of_plainContent : ∀ s, Style.PlainContent s → ∀ c ∈ s, isAscii c := fun _ h => h.1

/-- No layer changes JSON. -/
lemma unchanged_of_strict {s : Str} {v : Value N} (h : Rendering .strict number s v) :
    quoteKeys false false s = s ∧ escapeControls false s = s := by
  constructor
  · exact ((keyPass rfl rfl).rendering h).2 rfl
  · exact ((escapePass rfl rfl rfl).rendering h).2 ⟨rfl, rfl⟩

/-- With bare keys quoted and characters escaped, a drifted rendering is JSON. -/
lemma rendering_repaired {s : Str} {v : Value N}
    (h : Rendering Style.drifted.unleaked number s v) :
    quoteBareKeys s = .ok (quoteKeys false false s) ∧
      escapeStringControls (quoteKeys false false s) =
        .ok (escapeControls false (quoteKeys false false s)) ∧
      Rendering .strict number (escapeControls false (quoteKeys false false s)) v := by
  have hkeyed := ((keyPass rfl rfl).rendering h).1
  have hbytes : bytes s = s := ((bytesPass rfl isAscii_of_plainContent).rendering h).2 trivial
  have hbytes' : bytes (quoteKeys false false s) = quoteKeys false false s :=
    ((bytesPass rfl isAscii_of_plainContent).rendering hkeyed).2 trivial
  refine ⟨?_, ?_, ((escapePass rfl rfl rfl).rendering hkeyed).1⟩
  · rw [quoteBareKeys_eq, hbytes]
  · rw [escapeStringControls_eq, hbytes']

/-! ### The body of a call -/

lemma normalize_eq_unleak (body : Str) : Gemma4ToolFormat.normalize body = Leak.unleak body := by
  rw [Gemma4ToolFormat.normalize]
  split_ifs with h
  · rfl
  · exact (replace_of_not_contains (by simpa using h) _).symm

lemma isWhitespace_of_isJsonSpace {c : Char} (h : isJsonSpace c = true) :
    isWhitespace c = true := by
  simp only [isJsonSpace, Bool.or_eq_true, beq_iff_eq] at h
  rcases h with ((rfl | rfl) | rfl) | rfl <;> decide

/-- The rendering of an object starts and ends with a brace. -/
lemma exists_of_renders_object {style : Style} {n : ℕ} {t : Str} {map : Map N}
    (h : Renders style number n t (.value (.object map))) : ∃ r, t = '{' :: (r ++ ['}']) := by
  cases h with
  | emptyObject => exact ⟨_, rfl⟩
  | object => exact ⟨_, rfl⟩

/-- A name, white space and an object: what stands behind `call:`. -/
structure Call (name w t : Str) : Prop where
  ne_nil : name ≠ []
  ident : ∀ c ∈ name, isIdentByte c = true
  space : Space w
  braces : ∃ r, t = '{' :: (r ++ ['}'])

namespace Call

variable {name w t : Str} (h : Call name w t)

include h

lemma blank : Blank w := fun c hc => isWhitespace_of_isJsonSpace (h.space c hc)

/-- Around the call there is nothing to trim. -/
lemma trim_append {front w' : Str}
    (hfront : ∀ c, (front ++ name).head? = some c → isWhitespace c = false) (hw' : Space w') :
    trim (front ++ (name ++ (w ++ (t ++ w')))) = front ++ (name ++ (w ++ t)) := by
  obtain ⟨r, rfl⟩ := h.braces
  have hblank : Blank w' := fun c hc => isWhitespace_of_isJsonSpace (hw' c hc)
  have hhead : ∀ c, (front ++ (name ++ (w ++ '{' :: (r ++ ['}'])))).head? = some c →
      isWhitespace c = false := by
    intro c hc
    apply hfront
    obtain ⟨d, name, rfl⟩ := List.exists_cons_of_ne_nil h.ne_nil
    cases front with
    | nil => exact hc
    | cons => exact hc
  have hlast : ∀ c, (front ++ (name ++ (w ++ '{' :: (r ++ ['}'])))).getLast? = some c →
      isWhitespace c = false := by
    intro c hc
    have hclose : front ++ (name ++ (w ++ '{' :: (r ++ ['}']))) =
        front ++ (name ++ (w ++ '{' :: r)) ++ ['}'] := by simp
    rw [hclose, List.getLast?_concat] at hc
    cases hc
    decide
  have htrim := Str.trim_append blank_nil hblank hhead hlast
  simpa using htrim

lemma name_head : ∀ c, name.head? = some c → isWhitespace c = false :=
  fun c hc => isWhitespace_of_isIdentByte (h.ident c (List.mem_of_mem_head? hc))

lemma stripped_eq {body w' : Str} (hw' : Space w')
    (hbody : Gemma4ToolFormat.normalize body = "call:".toList ++ (name ++ (w ++ (t ++ w')))) :
    Gemma4ToolFormat.stripped body = name ++ (w ++ t) := by
  have hcall : ∀ c, ("call:".toList ++ name).head? = some c → isWhitespace c = false := by
    rintro c ⟨⟩
    decide
  have hrest : trim ([] ++ (name ++ (w ++ (t ++ [])))) = [] ++ (name ++ (w ++ t)) :=
    h.trim_append h.name_head space_nil
  rw [List.append_nil, List.nil_append] at hrest
  rw [Gemma4ToolFormat.stripped, hbody]
  simp only [h.trim_append hcall hw', stripPrefix_eq_some.mpr rfl, Option.getD_some]
  exact hrest

/-- The call is cut in front of the object. -/
lemma parseCall_eq (json : SerdeJson N) (isAlphanumeric : Char → Bool) :
    Gemma4ToolFormat.parseCall json isAlphanumeric (name ++ (w ++ t)) =
      (Gemma4ToolFormat.parseArguments json t).map fun v =>
        v.map fun v => (name, v.asObject.getD []) := by
  obtain ⟨r, rfl⟩ := h.braces
  have hmem : '{' ∉ name ++ w := by
    intro hmem
    rcases List.mem_append.mp hmem with hmem | hmem
    · exact absurd (h.ident _ hmem) (by decide)
    · exact absurd (h.space _ hmem) (by decide)
  have hfind : find ['{'] (name ++ (w ++ '{' :: (r ++ ['}']))) = some (len (name ++ w)) := by
    rw [find_eq_splitFirst, ← List.append_assoc, splitFirst_singleton.mpr ⟨rfl, hmem⟩]
    rfl
  have hslice : slice (name ++ (w ++ '{' :: (r ++ ['}']))) 0 (len (name ++ w)) =
      .ok (name ++ w) := by
    have := slice_append [] (name ++ w) ('{' :: (r ++ ['}']))
    simpa using this
  have hfrom : sliceFrom (name ++ (w ++ '{' :: (r ++ ['}']))) (len (name ++ w)) =
      .ok ('{' :: (r ++ ['}'])) := by
    rw [← List.append_assoc]
    exact sliceFrom_append _ _
  have hname : trim (name ++ w) = name := by
    have hlast : ∀ c, name.getLast? = some c → isWhitespace c = false :=
      fun c hc => isWhitespace_of_isIdentByte (h.ident c (List.mem_of_getLast? hc))
    have := Str.trim_append blank_nil h.blank h.name_head hlast
    simpa using this
  simp only [Gemma4ToolFormat.parseCall, hfind, hslice, hfrom, ok_bind, hname]
  cases Gemma4ToolFormat.parseArguments json ('{' :: (r ++ ['}'])) <;> rfl

end Call

section Strict

variable (hstrict : ∀ s v, json.fromStr s = some v ↔ Rendering .strict number s v)

include hstrict

lemma parseArguments_drifted {s : Str} {v : Value N}
    (h : Rendering Style.drifted.unleaked number s v) :
    Gemma4ToolFormat.parseArguments json s = .ok (some v) := by
  obtain ⟨hquoted, hescaped, hrepaired⟩ := rendering_repaired h
  have hv := (hstrict _ _).mpr hrepaired
  rw [Gemma4ToolFormat.parseArguments]
  cases hs : json.fromStr s with
  | some v' =>
    -- read strictly, before any repair
    obtain ⟨hkeys, hcontrols⟩ := unchanged_of_strict ((hstrict _ _).mp hs)
    rw [hkeys, hcontrols, hs] at hv
    cases hv
    rfl
  | none =>
    simp only [lenientParseObject, hquoted, ok_bind]
    cases hq : json.fromStr (quoteKeys false false s) with
    | some v' =>
      obtain ⟨-, hcontrols⟩ := unchanged_of_strict ((hstrict _ _).mp hq)
      rw [hcontrols, hq] at hv
      cases hv
      rfl
    | none =>
      have hne : escapeControls false (quoteKeys false false s) ≠ quoteKeys false false s := by
        intro heq
        rw [heq, hq] at hv
        cases hv
      simp only [hescaped, ok_bind, if_pos hne, hv]
      rfl

end Strict

lemma unleak_call {name : Str} (hident : ∀ c ∈ name, isIdentByte c = true) (text : Str) :
    Leak.unleak ("call:".toList ++ name ++ text) =
      "call:".toList ++ (name ++ Leak.unleak text) := by
  have hname : ∀ c ∈ name, Copied c :=
    fun c hc => copied_of_isWordChar (isWordChar_of_isIdentByte (hident c hc))
  have hcopy : ∀ c s, Copied c → Leak.unleak (c :: s) = c :: Leak.unleak s :=
    fun c s hc => Leak.unleak_ne hc.ne_less s
  change Leak.unleak ('c' :: 'a' :: 'l' :: 'l' :: ':' :: (name ++ text)) = _
  simp (disch := decide) only [Leak.unleak_ne]
  rw [copy_append hcopy hname]
  rfl

/-- Every drifted rendering of an object is recovered. -/
theorem parseBody_recovers
    (hstrict : ∀ s v, json.fromStr s = some v ↔ Rendering .strict number s v)
    {name text : Str} {map : Map N} (hname : name ≠ [])
    (hident : ∀ c ∈ name, isIdentByte c = true)
    (h : Rendering .drifted number text (.object map)) :
    Gemma4ToolFormat.parseBody json isAlphanumeric ("call:".toList ++ name ++ text) =
      .ok (some ⟨name, .object (Map.insert TOOL (.string name) map)⟩) := by
  obtain ⟨w, t, w', hw, ht, hw', htext⟩ := ((leakPass rfl).rendering h).1
  have hcall : Call name w t := ⟨hname, hident, hw, exists_of_renders_object ht⟩
  have hnormalize : Gemma4ToolFormat.normalize ("call:".toList ++ name ++ text) =
      "call:".toList ++ (name ++ (w ++ (t ++ w'))) := by
    rw [normalize_eq_unleak, unleak_call hident]
    exact congrArg (fun s => "call:".toList ++ (name ++ s)) htext
  have hargs : Gemma4ToolFormat.parseArguments json t = .ok (some (.object map)) :=
    parseArguments_drifted hstrict ⟨[], t, [], space_nil, ht, space_nil, by simp⟩
  have hne : name ++ (w ++ t) ≠ [] := by simp [hname]
  rw [Gemma4ToolFormat.parseBody, hcall.stripped_eq hw' hnormalize, if_neg hne, hcall.parseCall_eq,
    hargs]
  simp [Except.map, Value.asObject, hname]

/-- Numbers without a sign, a fraction or an exponent. -/
def readDigits (lit : Str) : Option ℕ :=
  if lit.all isDigit then some (lit.foldl (fun n c => 10 * n + (c.toNat - 48)) 0) else none

/-- The library as far as the parsers use it. -/
def strictJson (number : Str → Option N) : SerdeJson N where
  fromStr := fromStr number
  toString _ := none

lemma plainContent_of_decide {s : Str} (h : s.all (fun c => isAscii c) = true)
    (htoken : ¬ Gemma4ToolFormat.QUOTE_TOKEN <:+: s) : Style.PlainContent s :=
  ⟨fun c hc => of_decide_eq_true (List.all_eq_true.mp h c hc), htoken⟩

def demoText : Str := "\x7ba = <|\"|>x\\d<|\"|>, \"n\": [12]\x7d".toList

def demoMembers : List (Str × Value ℕ) :=
  [("a".toList, .string "x\\d".toList), ("n".toList, .array [.number 12])]

lemma demoText_renders :
    Renders .drifted readDigits MAX_NESTING demoText
      (.value (.object (Map.ofMembers demoMembers))) := by
  have hspace : Space [' '] := by simp [Space, isJsonSpace]
  have hd : Chars .drifted "d".toList "d".toList := .plain (by decide) (by decide) (by decide) .nil
  have hx : Chars .drifted "x\\d".toList "x\\d".toList :=
    .plain (by decide) (by decide) (by decide) (.lone rfl (by decide) hd)
  have ha : Renders .drifted readDigits 126 _ (.value (.string "x\\d".toList)) :=
    .string (.quoted (.leaked rfl) hx (.leaked rfl)
      (plainContent_of_decide (by decide) (by decide)))
  have hkey : IsIdent "a".toList := ⟨⟨'a', rfl, by decide⟩, by simp; decide⟩
  have hkeyA : KeySep .drifted _ "a".toList :=
    .equals rfl rfl hkey (plainContent_of_decide (by decide) (by decide)) hspace
  have hkeyN : KeySep .drifted _ "n".toList :=
    .quoted (.quoted .plain (.plain (by decide) (by decide) (by decide) .nil) .plain
      (plainContent_of_decide (by decide) (by decide))) space_nil
  have hn : Renders .drifted readDigits 126 _ (.value (.array [.number 12])) :=
    .array (.element space_nil
      (.number (by decide : isNumberLiteral "12".toList = true) (by decide)) space_nil)
  exact .object (.members space_nil hkeyA hspace ha space_nil
    (.member hspace hkeyN hspace hn space_nil))

/-- The call with this text is recovered. -/
theorem parseBody_recovers_demo :
    Gemma4ToolFormat.parseBody (strictJson readDigits) isAsciiAlphanumeric
        ("call:".toList ++ "f".toList ++ demoText) =
      .ok (some ⟨"f".toList,
        .object (Map.insert TOOL (.string "f".toList) (Map.ofMembers demoMembers))⟩) := by
  have hrendering : Rendering .drifted readDigits demoText (.object (Map.ofMembers demoMembers)) :=
    ⟨[], demoText, [], space_nil, demoText_renders, space_nil, by simp⟩
  have hident : ∀ c ∈ "f".toList, isIdentByte c = true := by
    simp
    decide
  exact parseBody_recovers (fun _ _ => rendering_strict_iff.symm) (by decide) hident hrendering

/-! ### A backslash in front of a leaked token -/

/-- A backslash may go undoubled in front of a leaked token as well. -/
def Style.driftedAtToken : Style := { Style.drifted with loneBeforeToken := true }

def tokenText : Str := "\x7b\"a\":\"x\\<|\"|>\x7d".toList

def tokenMembers : List (Str × Value ℕ) := [("a".toList, .string "x\\".toList)]

lemma tokenText_renders : Renders .driftedAtToken readDigits MAX_NESTING tokenText
    (.value (.object (Map.ofMembers tokenMembers))) := by
  have hchars : Chars .driftedAtToken "x".toList "x".toList :=
    .plain (by decide) (by decide) (by decide) .nil
  have hkey : KeySep .driftedAtToken _ "a".toList :=
    .quoted (.quoted .plain (.plain (by decide) (by decide) (by decide) .nil) .plain
      (plainContent_of_decide (by decide) (by decide))) space_nil
  have hx : Renders .driftedAtToken readDigits 126 _ (.value (.string "x\\".toList)) :=
    .string (.loneEnd rfl .plain hchars (plainContent_of_decide (by decide) (by decide)))
  exact .object (.member space_nil hkey space_nil hx space_nil)

/-- In front of a leaked token that closes a string, a backslash that is not doubled is taken for
the start of an escape, and is lost. -/
theorem not_parseBody_recovers_at_token :
    ¬ ∀ (N : Type) (number : Str → Option N) (json : SerdeJson N) (isAlphanumeric : Char → Bool)
      (name text : Str) (map : Map N),
      (∀ s v, json.fromStr s = some v ↔ Rendering .strict number s v) → name ≠ [] →
      (∀ c ∈ name, isIdentByte c = true) → Map.get TOOL map = none →
      Rendering .driftedAtToken number text (.object map) →
      Gemma4ToolFormat.parseBody json isAlphanumeric ("call:".toList ++ name ++ text) =
        .ok (some ⟨name, .object (Map.insert TOOL (.string name) map)⟩) := by
  intro h
  have hrendering : Rendering .driftedAtToken readDigits tokenText
      (.object (Map.ofMembers tokenMembers)) :=
    ⟨[], tokenText, [], space_nil, tokenText_renders, space_nil, by simp⟩
  have hident : ∀ c ∈ "f".toList, isIdentByte c = true := by
    simp
    decide
  have hcall := h ℕ readDigits (strictJson readDigits) isAsciiAlphanumeric "f".toList tokenText _
    (fun _ _ => rendering_strict_iff.symm) (by decide) hident rfl hrendering
  have hlost : ((Gemma4ToolFormat.parseBody (strictJson readDigits) isAsciiAlphanumeric
      ("call:".toList ++ "f".toList ++ tokenText)).toOption.bind fun call => call.bind fun call =>
        (call.args.get "a".toList).bind Value.asStr) = some "x".toList := by
    decide +kernel
  rw [hcall] at hlost
  revert hlost
  decide

end ModelApi.Gemma
