import ModelApi.Gemma.LoneQuote
import ModelApi.Server.ToolText

/-!
# When the extraction of tool calls returns
-/

namespace ModelApi.Server

open Lib Lib.Str Gemma

variable {N : Type} {json : SerdeJson N} {isAlphanumeric : Char → Bool}

lemma foldlM_collectCall_returns_iff {toolFormat : ToolFormat N} (bodies : List Str)
    (calls : List ToolCall) :
    (∃ calls', bodies.foldlM (collectCall json toolFormat) calls = .ok calls') ↔
      ∀ body ∈ bodies, ∃ p, toolFormat.parseBody body = .ok p := by
  induction bodies generalizing calls with
  | nil => exact ⟨fun _ => nofun, fun _ => ⟨calls, rfl⟩⟩
  | cons body bodies ih =>
    rw [List.foldlM_cons, List.forall_mem_cons, collectCall]
    cases toolFormat.parseBody body with
    | error e =>
      constructor
      · rintro ⟨_, h⟩
        cases h
      · rintro ⟨⟨_, h⟩, -⟩
        cases h
    | ok p =>
      have hp : ∃ p', (.ok p : Except Fault (Option (ParsedCall N))) = .ok p' := ⟨p, rfl⟩
      cases p with
      | none => simpa [hp] using ih calls
      | some parsed => simpa [hp] using ih (pushCall json calls parsed)

lemma markers_ne_nil (format : Format) :
    ¬ ((format.toolFormat json isAlphanumeric).openMarker = [] ∨
      (format.toolFormat json isAlphanumeric).closeMarker = []) := by
  cases format with
  | xml =>
    change ¬ ("<tool_call>".toList = [] ∨ "</tool_call>".toList = [])
    decide
  | chatML =>
    change ¬ ("<tool_call>".toList = [] ∨ "</tool_call>".toList = [])
    decide
  | gemma4 =>
    change ¬ ("<|tool_call>".toList = [] ∨ "<tool_call|>".toList = [])
    decide

/-- On every text, in each of the formats: the extraction returns if and only if no body between the
markers of the native format is stuck. -/
theorem extractToolCalls_returns_iff (format : Format) (text : Str) :
    (∃ calls, extractToolCalls json (format.toolFormat json isAlphanumeric) text = .ok calls) ↔
      (format = .gemma4 →
        ∀ body ∈ markedBodies "<|tool_call>".toList "<tool_call|>".toList text,
          ¬ Stuck json body) := by
  rw [extractToolCalls_eq, if_neg (markers_ne_nil format), foldlM_collectCall_returns_iff]
  cases format with
  | xml => exact ⟨fun _ => nofun, fun _ body _ => ⟨_, rfl⟩⟩
  | chatML => exact ⟨fun _ => nofun, fun _ body _ => ⟨_, rfl⟩⟩
  | gemma4 =>
    simp only [true_implies]
    exact forall₂_congr fun body _ => parseBody_returns_iff_not_stuck body

/-- A JSON library that accepts nothing. -/
def rejecting : SerdeJson Unit := ⟨fun _ => none, fun _ => none⟩

/-- The arguments `{":x}` make the extraction panic. -/
theorem extractToolCalls_panics : ¬ ∀ (N : Type) (json : SerdeJson N) (isAlphanumeric : Char → Bool)
    (format : Format) (text : Str),
    ∃ calls, extractToolCalls json (format.toolFormat json isAlphanumeric) text = .ok calls := by
  intro h
  obtain ⟨calls, hcalls⟩ := h Unit rejecting (fun _ => false) .gemma4
    "<|tool_call>call:f\x7b\":x\x7d<tool_call|>".toList
  have hpanic : extractToolCalls rejecting (Format.gemma4.toolFormat rejecting fun _ => false)
      "<|tool_call>call:f\x7b\":x\x7d<tool_call|>".toList = .error (.slice 1 0 1) := by
    decide +kernel
  rw [hpanic] at hcalls
  cases hcalls

end ModelApi.Server
