import ModelApi.Server.Extraction

/-!
# Segments

A text that is put together of gaps and marked bodies is taken apart at the same places.
-/

namespace ModelApi.Server

open Lib Lib.Str Gemma

variable {N : Type}

/-- Gaps, each with the marked body behind it, and a tail. -/
def segmented (openMarker closeMarker tail : Str) : List (Str × Str) → Str
  | []                   => tail
  | (gap, body) :: segments => gap ++ (openMarker ++ (body ++ (closeMarker ++
      segmented openMarker closeMarker tail segments)))

/-- A marker whose first character it has nowhere else. -/
def Marker (marker : Str) : Prop := ∃ p ps, marker = p :: ps ∧ p ∉ ps

lemma Marker.splitFirst_append {marker a : Str} (hmarker : Marker marker)
    (ha : ¬ marker <:+: a) (b : Str) : splitFirst marker (a ++ (marker ++ b)) = some (a, b) := by
  obtain ⟨p, ps, rfl, hp⟩ := hmarker
  exact Str.splitFirst_append hp ha b

lemma marker_openMarker {json : SerdeJson N} {isAlphanumeric : Char → Bool} (format : Format) :
    Marker (format.toolFormat json isAlphanumeric).openMarker := by
  cases format with
  | xml => exact ⟨'<', "tool_call>".toList, rfl, by decide⟩
  | chatML => exact ⟨'<', "tool_call>".toList, rfl, by decide⟩
  | gemma4 => exact ⟨'<', "|tool_call>".toList, rfl, by decide⟩

lemma marker_closeMarker {json : SerdeJson N} {isAlphanumeric : Char → Bool} (format : Format) :
    Marker (format.toolFormat json isAlphanumeric).closeMarker := by
  cases format with
  | xml => exact ⟨'<', "/tool_call>".toList, rfl, by decide⟩
  | chatML => exact ⟨'<', "/tool_call>".toList, rfl, by decide⟩
  | gemma4 => exact ⟨'<', "tool_call|>".toList, rfl, by decide⟩

/-- An opening marker and, somewhere behind it, a closing one. -/
def HasPair (openMarker closeMarker text : Str) : Prop :=
  ∃ gap body rest, text = gap ++ (openMarker ++ (body ++ (closeMarker ++ rest)))

lemma markedBodies_of_not_hasPair {openMarker closeMarker text : Str}
    (h : ¬ HasPair openMarker closeMarker text) :
    markedBodies openMarker closeMarker text = [] := by
  cases hopen : splitFirst openMarker text with
  | none => exact markedBodies_of_no_open hopen
  | some parts =>
    obtain ⟨gap, behind⟩ := parts
    cases hclose : splitFirst closeMarker behind with
    | none => exact markedBodies_of_no_close hopen hclose
    | some parts =>
      obtain ⟨body, rest⟩ := parts
      have htext := eq_of_splitFirst hopen
      rw [eq_of_splitFirst hclose] at htext
      exact absurd ⟨gap, body, rest, by simpa only [List.append_assoc] using htext⟩ h

/-- The bodies are found where they were put. -/
lemma markedBodies_segmented {openMarker closeMarker tail : Str} (hopen : Marker openMarker)
    (hclose : Marker closeMarker) (htail : ¬ HasPair openMarker closeMarker tail)
    {segments : List (Str × Str)} (hgaps : ∀ s ∈ segments, ¬ openMarker <:+: s.1)
    (hbodies : ∀ s ∈ segments, ¬ closeMarker <:+: s.2) :
    markedBodies openMarker closeMarker (segmented openMarker closeMarker tail segments) =
      segments.map Prod.snd := by
  induction segments with
  | nil => exact markedBodies_of_not_hasPair htail
  | cons s segments ih =>
    obtain ⟨gap, body⟩ := s
    obtain ⟨hgap, hgaps⟩ := List.forall_mem_cons.mp hgaps
    obtain ⟨hbody, hbodies⟩ := List.forall_mem_cons.mp hbodies
    have hne : openMarker ≠ [] := by
      obtain ⟨p, ps, rfl, -⟩ := hopen
      exact List.cons_ne_nil p ps
    rw [segmented, List.map_cons, ← ih hgaps hbodies]
    exact markedBodies_of_body (hopen.splitFirst_append hgap _) (hclose.splitFirst_append hbody _)
      hne

/-! ### The calls -/

variable {json : SerdeJson N} {isAlphanumeric : Char → Bool}

/-- What a body parses as. -/
def parsed (toolFormat : ToolFormat N) (body : Str) : Option (ParsedCall N) :=
  match toolFormat.parseBody body with
  | .ok p    => p
  | .error _ => none

/-- The call on the wire, as the `i`-th one. -/
def wireCall (json : SerdeJson N) (i : ℕ) (p : ParsedCall N) : ToolCall :=
  ⟨s!"tc-{i}", String.ofList p.name,
    String.ofList ((json.toString (p.args.mapObject (Map.remove TOOL))).getD "{}".toList)⟩

/-- The bodies that parse are collected, and numbered without holes. -/
lemma foldlM_collectCall_eq {toolFormat : ToolFormat N} {bodies : List Str}
    (hparse : ∀ body ∈ bodies, ∃ p, toolFormat.parseBody body = .ok p) (calls : List ToolCall) :
    bodies.foldlM (collectCall json toolFormat) calls =
      .ok (calls ++ (bodies.filterMap (parsed toolFormat)).mapIdx fun i p =>
        wireCall json (calls.length + i) p) := by
  induction bodies generalizing calls with
  | nil => simp [pure, Except.pure]
  | cons body bodies ih =>
    obtain ⟨⟨p, hp⟩, hparse⟩ := List.forall_mem_cons.mp hparse
    have hparsed : parsed toolFormat body = p := by rw [parsed, hp]
    cases p with
    | none =>
      have hcollect : collectCall json toolFormat calls body = .ok calls := by
        rw [collectCall, hp]
        rfl
      rw [List.foldlM_cons, hcollect, ok_bind, ih hparse, List.filterMap_cons_none hparsed]
    | some p =>
      have hcollect : collectCall json toolFormat calls body =
          .ok (calls ++ [wireCall json calls.length p]) := by
        rw [collectCall, hp]
        rfl
      rw [List.foldlM_cons, hcollect, ok_bind, ih hparse, List.filterMap_cons_some hparsed]
      simp [List.mapIdx_cons, Nat.add_assoc, Nat.add_comm 1]

/-- In each format, for every choice of gaps, bodies and tail: the calls are the bodies that parse,
in order. -/
theorem extractToolCalls_segmented (format : Format) {segments : List (Str × Str)} {tail : Str}
    (hgaps : ∀ s ∈ segments, ¬ (format.toolFormat json isAlphanumeric).openMarker <:+: s.1)
    (hbodies : ∀ s ∈ segments, ¬ (format.toolFormat json isAlphanumeric).closeMarker <:+: s.2)
    (hparse : ∀ s ∈ segments, ∃ p, (format.toolFormat json isAlphanumeric).parseBody s.2 = .ok p)
    (htail : ¬ HasPair (format.toolFormat json isAlphanumeric).openMarker
      (format.toolFormat json isAlphanumeric).closeMarker tail) :
    extractToolCalls json (format.toolFormat json isAlphanumeric)
        (segmented (format.toolFormat json isAlphanumeric).openMarker
          (format.toolFormat json isAlphanumeric).closeMarker tail segments) =
      .ok (((segments.map Prod.snd).filterMap
        (parsed (format.toolFormat json isAlphanumeric))).mapIdx (wireCall json)) := by
  have hfound := markedBodies_segmented (marker_openMarker format) (marker_closeMarker format) htail
    hgaps hbodies
  rw [extractToolCalls_eq, if_neg (markers_ne_nil format), hfound,
    foldlM_collectCall_eq (List.forall_mem_map.mpr hparse)]
  simp

/-- A body that does not parse, with an opening marker in it, and one that does. -/
theorem extractToolCalls_segmented_demo :
    extractToolCalls rejecting (Format.xml.toolFormat rejecting isAsciiAlphanumeric)
        (segmented "<tool_call>".toList "</tool_call>".toList "no </tool_call>".toList
          [("a ".toList, "<tool_call>".toList), ("< b ".toList, "f".toList)]) =
      .ok [wireCall rejecting 0 ⟨"f".toList, .object [(TOOL, .string "f".toList)]⟩] := by
  have hgaps : ∀ s ∈ [("a ".toList, "<tool_call>".toList), ("< b ".toList, "f".toList)],
      ¬ (Format.xml.toolFormat rejecting isAsciiAlphanumeric).openMarker <:+: s.1 := by
    decide +kernel
  have hbodies : ∀ s ∈ [("a ".toList, "<tool_call>".toList), ("< b ".toList, "f".toList)],
      ¬ (Format.xml.toolFormat rejecting isAsciiAlphanumeric).closeMarker <:+: s.2 := by
    decide +kernel
  have htail : ¬ HasPair (Format.xml.toolFormat rejecting isAsciiAlphanumeric).openMarker
      (Format.xml.toolFormat rejecting isAsciiAlphanumeric).closeMarker
      "no </tool_call>".toList := by
    rintro ⟨gap, body, rest, h⟩
    have hopen : "<tool_call>".toList <:+: "no </tool_call>".toList :=
      ⟨gap, _, by rw [List.append_assoc]; exact h.symm⟩
    exact absurd hopen (by decide +kernel)
  have hsegmented := extractToolCalls_segmented .xml hgaps hbodies
    (fun s _ => ⟨_, rfl⟩) htail
  exact hsegmented

end ModelApi.Server
