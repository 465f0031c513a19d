import ModelApi.Gemma.ToolFormat
import ModelApi.Proto.Types

/-!
# Tool calls in a model's text

`extract_tool_calls`: the loop over the markers in a text, with its offsets and slices, and what it
computes.
-/

namespace ModelApi.Server

open Lib Lib.Str Gemma

variable {N : Type} (json : SerdeJson N) (toolFormat : ToolFormat N)

/-- The calls found so far, and the one that was parsed next. -/
def pushCall (calls : List ToolCall) (parsed : ParsedCall N) : List ToolCall :=
  let args := parsed.args.mapObject (Map.remove TOOL)
  let argsJson := (json.toString args).getD "{}".toList
  calls ++ [⟨s!"tc-{calls.length}", String.ofList parsed.name, String.ofList argsJson⟩]

/-- One turn of the loop, from the cursor and the calls found so far. -/
def extractToolCallsTurn (text : Str) (s : ℕ × List ToolCall) :
    Except Fault (ℕ × List ToolCall ⊕ List ToolCall) := do
  let (cursor, calls) := s
  match find toolFormat.openMarker (← sliceFrom text cursor) with
  | none       => return .inr calls
  | some start =>
    let bodyStart := cursor + start + toolFormat.openMarker.len
    match find toolFormat.closeMarker (← sliceFrom text bodyStart) with
    | none      => return .inr calls
    | some stop =>
      let body ← slice text bodyStart (bodyStart + stop)
      let cursor := bodyStart + stop + toolFormat.closeMarker.len
      match ← toolFormat.parseBody body with
      | none        => return .inl (cursor, calls)
      | some parsed => return .inl (cursor, pushCall json calls parsed)

def extractToolCalls (text : Str) : Except Fault (List ToolCall) :=
  if toolFormat.openMarker = [] ∨ toolFormat.closeMarker = [] then .ok []
  else loop (extractToolCallsTurn json toolFormat text) (text.len + 1) (0, [])

/-! ### Marked bodies -/

/-- The bodies between an opening marker and the next closing one. -/
def markedBodies (openMarker closeMarker text : Str) : List Str :=
  match _hopen : splitFirst openMarker text with
  | none             => []
  | some (_, behind) =>
    match _hclose : splitFirst closeMarker behind with
    | none              => []
    | some (body, rest) =>
      if openMarker = [] then []
      else body :: markedBodies openMarker closeMarker rest
termination_by text.length
decreasing_by
  have h₁ := congrArg List.length (eq_of_splitFirst _hopen)
  have h₂ := congrArg List.length (eq_of_splitFirst _hclose)
  have h₃ : 0 < openMarker.length := List.length_pos_iff.mpr ‹_›
  simp only [List.length_append] at h₁ h₂
  omega

section MarkedBodies

variable {openMarker closeMarker text gap behind body rest : Str}

lemma markedBodies_of_no_open (h : splitFirst openMarker text = none) :
    markedBodies openMarker closeMarker text = [] := by
  rw [markedBodies]
  split
  · rfl
  · next heq =>
    rw [h] at heq
    cases heq

lemma markedBodies_of_no_close (hopen : splitFirst openMarker text = some (gap, behind))
    (hclose : splitFirst closeMarker behind = none) :
    markedBodies openMarker closeMarker text = [] := by
  rw [markedBodies]
  split
  · rfl
  · next heq =>
    rw [hopen] at heq
    cases heq
    split
    · rfl
    · next heq =>
      rw [hclose] at heq
      cases heq

lemma markedBodies_of_body (hopen : splitFirst openMarker text = some (gap, behind))
    (hclose : splitFirst closeMarker behind = some (body, rest)) (hne : openMarker ≠ []) :
    markedBodies openMarker closeMarker text =
      body :: markedBodies openMarker closeMarker rest := by
  rw [markedBodies]
  split
  · next heq =>
    rw [hopen] at heq
    cases heq
  · next heq =>
    rw [hopen] at heq
    cases heq
    split
    · next heq =>
      rw [hclose] at heq
      cases heq
    · next heq =>
      rw [hclose] at heq
      cases heq
      rw [if_neg hne]

end MarkedBodies

/-- The calls found so far, and the one in the next body if it parses. -/
def collectCall (calls : List ToolCall) (body : Str) : Except Fault (List ToolCall) := do
  match ← toolFormat.parseBody body with
  | none        => return calls
  | some parsed => return pushCall json calls parsed

/-- What the loop computes from a cursor on. -/
def callsFrom (text : Str) (s : ℕ × List ToolCall) : Except Fault (List ToolCall) :=
  match text.splitAt? s.1 with
  | some (_, back) =>
    (markedBodies toolFormat.openMarker toolFormat.closeMarker back).foldlM
      (collectCall json toolFormat) s.2
  | none => .ok s.2

variable {json toolFormat}

lemma extractToolCalls_turns (hne : toolFormat.openMarker ≠ []) {text : Str}
    {s : ℕ × List ToolCall} (hs : ∃ front back : Str, text = front ++ back ∧ s.1 = front.len) :
    Turns (extractToolCallsTurn json toolFormat text)
      (fun s => ∃ front back : Str, text = front ++ back ∧ s.1 = front.len)
      (fun s => text.len - s.1) (callsFrom json toolFormat text) s := by
  obtain ⟨cursor, calls⟩ := s
  obtain ⟨front, back, rfl, hcursor⟩ := hs
  obtain rfl : cursor = front.len := hcursor
  have hcalls : callsFrom json toolFormat (front ++ back) (front.len, calls) =
      (markedBodies toolFormat.openMarker toolFormat.closeMarker back).foldlM
        (collectCall json toolFormat) calls := by
    simp only [callsFrom, splitAt?_len_append]
  cases hopen : splitFirst toolFormat.openMarker back with
  | none =>
    refine .done calls ?_ ?_
    · simp [extractToolCallsTurn, sliceFrom_append, find_eq_splitFirst, hopen]
    · rw [hcalls, markedBodies_of_no_open hopen]
      rfl
  | some parts =>
    obtain ⟨gap, behind⟩ := parts
    have hback := eq_of_splitFirst hopen
    have hbehind : sliceFrom (front ++ back) (front.len + gap.len + toolFormat.openMarker.len) =
        .ok behind := by
      rw [hback, ← len_append, ← len_append, ← List.append_assoc, ← List.append_assoc]
      exact sliceFrom_append _ behind
    cases hclose : splitFirst toolFormat.closeMarker behind with
    | none =>
      refine .done calls ?_ ?_
      · simp only [extractToolCallsTurn, sliceFrom_append, find_eq_splitFirst, hopen, hbehind,
          hclose, Option.map_some, Option.map_none, ok_bind, pure_eq_ok]
      · rw [hcalls, markedBodies_of_no_close hopen hclose]
        rfl
    | some parts =>
      obtain ⟨body, rest⟩ := parts
      have hbehind' := eq_of_splitFirst hclose
      have hbody : slice (front ++ back) (front.len + gap.len + toolFormat.openMarker.len)
          (front.len + gap.len + toolFormat.openMarker.len + body.len) = .ok body := by
        rw [hback, hbehind', ← len_append, ← len_append]
        simpa only [List.append_assoc] using
          slice_append (front ++ gap ++ toolFormat.openMarker) body
            (toolFormat.closeMarker ++ rest)
      have hcalls' : callsFrom json toolFormat (front ++ back) (front.len, calls) =
          (collectCall json toolFormat calls body >>= fun calls' =>
            (markedBodies toolFormat.openMarker toolFormat.closeMarker rest).foldlM
              (collectCall json toolFormat) calls') := by
        rw [hcalls, markedBodies_of_body hopen hclose hne, List.foldlM_cons]
      -- the cursor behind the closing marker
      obtain ⟨front', hfront'⟩ : ∃ front',
          front' = front ++ gap ++ toolFormat.openMarker ++ body ++ toolFormat.closeMarker :=
        ⟨_, rfl⟩
      have hrest : front ++ back = front' ++ rest := by
        rw [hback, hbehind', hfront']
        simp only [List.append_assoc]
      have hcursor : front.len + gap.len + toolFormat.openMarker.len + body.len +
          toolFormat.closeMarker.len = len front' := by
        rw [hfront']
        simp only [len_append]
      have hlt : (front ++ back).len - len front' < (front ++ back).len - front.len := by
        have hpos : toolFormat.openMarker.len ≠ 0 := fun h => hne (len_eq_zero h)
        rw [hrest, len_append]
        omega
      have hnext : ∀ calls', callsFrom json toolFormat (front ++ back) (len front', calls') =
          (markedBodies toolFormat.openMarker toolFormat.closeMarker rest).foldlM
            (collectCall json toolFormat) calls' := by
        intro calls'
        simp only [callsFrom, hrest, splitAt?_len_append]
      cases hparse : toolFormat.parseBody body with
      | error e =>
        refine .fails e ?_ ?_
        · simp only [extractToolCallsTurn, sliceFrom_append, find_eq_splitFirst, hopen, hbehind,
            hclose, hbody, hparse, Option.map_some, ok_bind, error_bind]
        · rw [hcalls', collectCall, hparse]
          rfl
      | ok parsed =>
        cases parsed with
        | none =>
          refine .next (len front', calls) ?_ ⟨front', rest, hrest, rfl⟩ hlt ?_
          · simp only [extractToolCallsTurn, sliceFrom_append, find_eq_splitFirst, hopen,
              hbehind, hclose, hbody, hparse, Option.map_some, ok_bind, pure_eq_ok, hcursor]
          · rw [hcalls', hnext, collectCall, hparse]
            rfl
        | some parsed =>
          refine .next (len front', pushCall json calls parsed) ?_ ⟨front', rest, hrest, rfl⟩ hlt ?_
          · simp only [extractToolCallsTurn, sliceFrom_append, find_eq_splitFirst, hopen,
              hbehind, hclose, hbody, hparse, Option.map_some, ok_bind, pure_eq_ok, hcursor]
          · rw [hcalls', hnext, collectCall, hparse]
            rfl

/-- The calls are those of the bodies between the markers, in order. -/
theorem extractToolCalls_eq (text : Str) :
    extractToolCalls json toolFormat text =
      if toolFormat.openMarker = [] ∨ toolFormat.closeMarker = [] then .ok []
      else (markedBodies toolFormat.openMarker toolFormat.closeMarker text).foldlM
        (collectCall json toolFormat) [] := by
  rw [extractToolCalls]
  split_ifs with hempty
  · rfl
  · have hne : toolFormat.openMarker ≠ [] := fun h => hempty (.inl h)
    have hstart : ∃ front back : Str, text = front ++ back ∧
        ((0, []) : ℕ × List ToolCall).1 = front.len := ⟨[], text, rfl, rfl⟩
    rw [loop_eq (fun s hs => extractToolCalls_turns hne hs) hstart (by simp only; omega), callsFrom]
    cases text <;> rfl

end ModelApi.Server
