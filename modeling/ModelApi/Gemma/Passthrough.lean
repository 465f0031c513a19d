import ModelApi.Gemma.Recovery

/-!
# JSON through the lenient parser

What the lenient parser makes of a text that is JSON already. Its passes go over the bytes and write
each one as a character.
-/

namespace ModelApi.Gemma

open Lib Lib.Str

variable {N : Type} {number : Str → Option N} {json : SerdeJson N}

/-! ### Lengths -/

lemma Emits.length_le {consumed piece : Str} (h : Emits consumed piece) :
    consumed.length ≤ piece.length := by
  cases h with
  | byte c => rfl
  | escape c => rfl
  | bare h => rfl
  | key h =>
    simp only [List.length_append, List.length_cons]
    omega
  | keyEq h hws =>
    simp only [List.length_append, List.length_cons]
    omega

/-- Quoting keys makes no text shorter. -/
lemma length_le_quoteKeys (inString prev : Bool) (s : Str) :
    s.length ≤ (quoteKeys inString prev s).length := by
  induction hn : s.length using Nat.strong_induction_on generalizing inString prev s with
  | _ n ih =>
    cases s with
    | nil => simp [← hn]
    | cons b s =>
      obtain ⟨consumed, rest, piece, inString', prev', hs, hne, hemits, heq⟩ :=
        quoteKeys_turn inString prev b s
      have hlength := congrArg List.length hs
      have hpos := List.length_pos_iff.mpr hne
      rw [List.length_append] at hlength
      have hrest : rest.length ≤ (quoteKeys inString' prev' rest).length :=
        ih rest.length (by omega) inString' prev' rest rfl
      have hpiece := hemits.length_le
      rw [heq, List.length_append]
      omega

lemma length_encodeChar_pos (c : Char) : 1 ≤ (encodeChar c).length := by
  rw [encodeChar, List.length_map, String.length_utf8EncodeChar]
  exact c.utf8Size_pos

/-- A character outside ASCII has several bytes. -/
lemma one_lt_length_encodeChar {c : Char} (h : ¬ isAscii c) : 1 < (encodeChar c).length := by
  have hne : c.utf8Size ≠ 1 := by
    rw [Ne, Char.utf8Size_eq_one_iff]
    exact fun hle => h (Nat.lt_succ_iff.mpr hle)
  rw [encodeChar, List.length_map, String.length_utf8EncodeChar]
  have hpos := c.utf8Size_pos
  omega

lemma length_le_bytes (s : Str) : s.length ≤ s.bytes.length := by
  induction s with
  | nil => rfl
  | cons c s ih =>
    have hc := length_encodeChar_pos c
    rw [bytes_cons, List.length_append, List.length_cons]
    omega

lemma isAscii_of_length_bytes {s : Str} (h : s.bytes.length ≤ s.length) : ∀ c ∈ s, isAscii c := by
  induction s with
  | nil => simp
  | cons c s ih =>
    have hs := length_le_bytes s
    have hpos := length_encodeChar_pos c
    rw [bytes_cons, List.length_append, List.length_cons] at h
    have hc : isAscii c := by
      by_contra hc
      have hlt := one_lt_length_encodeChar hc
      omega
    exact List.forall_mem_cons.mpr ⟨hc, ih (by omega)⟩

/-! ### JSON -/

/-- The passes leave the text alone, and the parser reads it. -/
structure PassesThrough (json : SerdeJson N) (raw : Str) (v : Value N) : Prop where
  keys : quoteBareKeys raw = .ok raw
  controls : escapeStringControls raw = .ok raw
  value : lenientParseObject json raw = .ok (some v)

/-- JSON passes through the lenient parser if it is ASCII, and not otherwise. -/
theorem passesThrough_iff
    (hstrict : ∀ s v, json.fromStr s = some v ↔ Rendering .strict number s v)
    {raw : Str} {v : Value N} (hraw : json.fromStr raw = some v) :
    PassesThrough json raw v ↔ ∀ c ∈ raw, isAscii c := by
  constructor
  · intro h
    have hkeys := h.keys
    rw [quoteBareKeys_eq] at hkeys
    apply isAscii_of_length_bytes
    calc raw.bytes.length ≤ (quoteKeys false false raw.bytes).length := length_le_quoteKeys _ _ _
      _ = raw.length := congrArg List.length (Except.ok.inj hkeys)
  · intro hascii
    obtain ⟨hkeys, hcontrols⟩ := unchanged_of_strict ((hstrict raw v).mp hraw)
    have hquoted : quoteBareKeys raw = .ok raw := by
      rw [quoteBareKeys_eq, bytes_of_isAscii hascii, hkeys]
    refine ⟨hquoted, ?_, ?_⟩
    · rw [escapeStringControls_eq, bytes_of_isAscii hascii, hcontrols]
    · simp only [lenientParseObject, hquoted, ok_bind, hraw]
      rfl

def plainText : Str := "[\"a\",12]".toList

lemma plainText_read : (strictJson readDigits).fromStr plainText =
    some (.array [.string "a".toList, .number 12]) := by
  have ha : Renders .strict readDigits 126 "\"a\"".toList (.value (.string "a".toList)) :=
    .string (.quoted .plain (.plain (by decide) (by decide) (by decide) .nil) .plain trivial)
  have hn : Renders .strict readDigits 126 "12".toList (.value (.number 12)) :=
    .number (by decide) (by decide)
  apply rendering_strict_iff.mp
  exact ⟨[], plainText, [], space_nil, .array (.elements space_nil ha space_nil
    (.element space_nil hn space_nil)), space_nil, by simp⟩

/-- A string and a number in an array. -/
theorem passesThrough_iff_demo :
    PassesThrough (strictJson readDigits) plainText (.array [.string "a".toList, .number 12]) := by
  have hstrict : ∀ s v, (strictJson readDigits).fromStr s = some v ↔
      Rendering .strict readDigits s v := fun _ _ => rendering_strict_iff.symm
  have hascii : plainText.all (fun c => isAscii c) = true := by decide
  apply (passesThrough_iff hstrict plainText_read).mpr
  exact fun c hc => of_decide_eq_true (List.all_eq_true.mp hascii c hc)

lemma accent_read :
    (strictJson readDigits).fromStr "\"é\"".toList = some (.string "é".toList) := by
  have hé : Renders .strict readDigits 127 "\"é\"".toList (.value (.string "é".toList)) :=
    .string (.quoted .plain (.plain (by decide) (by decide) (by decide) .nil) .plain trivial)
  apply rendering_strict_iff.mp
  exact ⟨[], "\"é\"".toList, [], space_nil, hé, space_nil, by simp⟩

/-- Outside ASCII, each byte becomes a character. -/
theorem not_passesThrough :
    ¬ ∀ (raw : Str) (v : Value ℕ), (strictJson readDigits).fromStr raw = some v →
      PassesThrough (strictJson readDigits) raw v := by
  intro h
  have hkeys := (h _ _ accent_read).keys
  rw [quoteBareKeys_eq] at hkeys
  have hlength := length_le_quoteKeys false false (bytes "\"é\"".toList)
  rw [Except.ok.inj hkeys] at hlength
  revert hlength
  decide +kernel

end ModelApi.Gemma
