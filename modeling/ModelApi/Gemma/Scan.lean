import ModelApi.Gemma.JsonLenient

/-!
# The scanners as functions on texts

What the index loops of `JsonLenient` compute, as recursions over the bytes. The loops return, and
return this, on every text.
-/

namespace ModelApi.Gemma

open Lib Lib.Str

/-! ### The recursions -/

def escapeControls : Bool → Str → Str
  | _, []                => []
  | false, b :: s        => b :: escapeControls (b = '"') s
  | true, '\\' :: []     => ['\\']
  | true, '\\' :: c :: s =>
    if isValidEscape c then '\\' :: c :: escapeControls true s
    else '\\' :: '\\' :: escapeControls true (c :: s)
  | true, b :: s         =>
    if b = '"' then '"' :: escapeControls false s
    else if b.toNat ≤ 0x1F then escapeControl b ++ escapeControls true s
    else b :: escapeControls true s

def topLevelComma (depth : Int32) : Bool → Str → Bool
  | _, []         => false
  | true, b :: s  =>
    if b = '\\' then
      match s with
      | []      => false
      | _ :: s' => topLevelComma depth true s'
    else topLevelComma depth (b ≠ '"') s
  | false, b :: s =>
    if b = '"' then topLevelComma depth true s
    else if b = '[' ∨ b = '{' then topLevelComma (depth + 1) false s
    else if b = ']' ∨ b = '}' then topLevelComma (depth - 1) false s
    else if b = ',' ∧ depth = 0 then true
    else topLevelComma depth false s

/-- `prev` tells that a `{` or a `,` was the last byte but for white space. -/
def quoteKeys (inString prev : Bool) : Str → Str
  | []     => []
  | b :: s =>
    if inString then
      if b = '\\' then
        match s with
        | []     => ['\\']
        | c :: s => '\\' :: c :: quoteKeys true prev s
      else b :: quoteKeys (b ≠ '"') prev s
    else if b = '"' then '"' :: quoteKeys true false s
    else if b = '{' ∨ b = ',' then b :: quoteKeys false true s
    else if isAsciiWhitespace b then b :: quoteKeys false prev s
    else if prev ∧ isIdentStart b then
      let ident := b :: s.takeWhile isIdentByte
      let rest := s.dropWhile isIdentByte
      let behind := rest.dropWhile isAsciiWhitespace
      if behind.head? = some '=' then
        '"' :: ident ++ '"' :: rest.takeWhile isAsciiWhitespace ++
          ':' :: quoteKeys false false behind.tail
      else if behind.head? = some ':' then
        '"' :: ident ++ '"' :: quoteKeys false false rest
      else ident ++ quoteKeys false false rest
    else b :: quoteKeys false false s
termination_by s => s.length
decreasing_by
  all_goals have hrest := List.length_dropWhile_le isIdentByte s
  all_goals have := List.length_dropWhile_le isAsciiWhitespace (s.dropWhile isIdentByte)
  all_goals simp only [List.length_cons, List.length_tail]
  all_goals omega

lemma topLevelComma_true_cons {b : Char} (hb : b ≠ '\\') (depth : Int32) (s : Str) :
    topLevelComma depth true (b :: s) = topLevelComma depth (b ≠ '"') s := by
  cases s <;> simp [topLevelComma, hb]

lemma isIdentByte_of_isIdentStart {b : Char} (h : isIdentStart b = true) :
    isIdentByte b = true := by
  simp only [isIdentStart, isIdentByte, isAsciiAlphanumeric, Bool.or_eq_true] at h ⊢
  exact h.imp_left .inl

lemma isAscii_of_isIdentByte {b : Char} (h : isIdentByte b = true) : isAscii b := by
  simp only [isIdentByte, Bool.or_eq_true, beq_iff_eq] at h
  rcases h with h | rfl
  · exact isAscii_of_isAsciiAlphanumeric h
  · decide

lemma isWhitespace_of_isIdentByte {c : Char} (h : isIdentByte c = true) :
    isWhitespace c = false := by
  simp only [isIdentByte, Bool.or_eq_true, beq_iff_eq] at h
  rcases h with h | rfl
  · obtain ⟨hge, hle⟩ := toNat_of_isAsciiAlphanumeric h
    by_contra hws
    simp only [Bool.not_eq_false, isWhitespace, Bool.or_eq_true, Bool.and_eq_true,
      decide_eq_true_eq, beq_iff_eq] at hws
    omega
  · rfl

lemma plain_of_isIdentByte {c : Char} (h : isIdentByte c = true) :
    c ≠ '"' ∧ c ≠ '\\' ∧ 0x20 ≤ c.toNat := by
  refine ⟨?_, ?_, ?_⟩
  · rintro rfl
    cases h
  · rintro rfl
    cases h
  · simp only [isIdentByte, Bool.or_eq_true, beq_iff_eq] at h
    rcases h with h | rfl
    · exact le_trans (by decide) (toNat_of_isAsciiAlphanumeric h).1
    · decide

lemma isAscii_of_isValidEscape {x : Char} (h : isValidEscape x = true) : isAscii x := by
  simp only [isValidEscape, Bool.or_eq_true, beq_iff_eq] at h
  rcases h with (((((((rfl | rfl) | rfl) | rfl) | rfl) | rfl) | rfl) | rfl) | rfl <;> decide

section QuoteKeys

variable {prev : Bool} {b : Char} {s : Str}

lemma ne_of_isAsciiWhitespace (h : isAsciiWhitespace b = true) :
    b ≠ '"' ∧ ¬ (b = '{' ∨ b = ',') := by
  simp only [isAsciiWhitespace, Bool.or_eq_true, beq_iff_eq] at h
  rcases h with (((rfl | rfl) | rfl) | rfl) | rfl <;> decide

lemma ne_of_isIdentStart (h : isIdentStart b = true) :
    b ≠ '"' ∧ ¬ (b = '{' ∨ b = ',') ∧ ¬ isAsciiWhitespace b = true := by
  refine ⟨?_, ?_, ?_⟩
  · rintro rfl
    revert h
    decide
  · rintro (rfl | rfl) <;> revert h <;> decide
  · intro hws
    simp only [isAsciiWhitespace, Bool.or_eq_true, beq_iff_eq] at hws
    rcases hws with (((rfl | rfl) | rfl) | rfl) | rfl <;> revert h <;> decide

@[simp] lemma quoteKeys_nil (inString prev : Bool) : quoteKeys inString prev [] = [] := by
  rw [quoteKeys]

@[simp] lemma quoteKeys_escape (prev : Bool) (c : Char) (s : Str) :
    quoteKeys true prev ('\\' :: c :: s) = '\\' :: c :: quoteKeys true prev s := by
  rw [quoteKeys.eq_def]
  simp

lemma quoteKeys_inString (h : b ≠ '\\' ∨ s = []) :
    quoteKeys true prev (b :: s) = b :: quoteKeys (b ≠ '"') prev s := by
  rw [quoteKeys.eq_def]
  rcases h with h | rfl
  · simp [h]
  · by_cases hb : b = '\\' <;> simp [hb]

@[simp] lemma quoteKeys_quote (prev : Bool) (s : Str) :
    quoteKeys false prev ('"' :: s) = '"' :: quoteKeys true false s := by
  rw [quoteKeys.eq_def]
  simp

lemma quoteKeys_open (h : b = '{' ∨ b = ',') :
    quoteKeys false prev (b :: s) = b :: quoteKeys false true s := by
  rw [quoteKeys.eq_def]
  rcases h with rfl | rfl <;> simp

lemma quoteKeys_space (h : isAsciiWhitespace b = true) :
    quoteKeys false prev (b :: s) = b :: quoteKeys false prev s := by
  obtain ⟨hq, hopen⟩ := ne_of_isAsciiWhitespace h
  rw [quoteKeys.eq_def]
  simp [hq, hopen, h]

lemma quoteKeys_ident (h : isIdentStart b = true) :
    quoteKeys false true (b :: s) =
      let ident := b :: s.takeWhile isIdentByte
      let rest := s.dropWhile isIdentByte
      let behind := rest.dropWhile isAsciiWhitespace
      if behind.head? = some '=' then
        '"' :: ident ++ '"' :: rest.takeWhile isAsciiWhitespace ++
          ':' :: quoteKeys false false behind.tail
      else if behind.head? = some ':' then
        '"' :: ident ++ '"' :: quoteKeys false false rest
      else ident ++ quoteKeys false false rest := by
  obtain ⟨hq, hopen, hws⟩ := ne_of_isIdentStart h
  rw [quoteKeys.eq_def]
  simp [hq, hopen, hws, h]

lemma quoteKeys_other (hq : b ≠ '"') (hopen : ¬ (b = '{' ∨ b = ','))
    (hws : ¬ isAsciiWhitespace b = true) (hident : ¬ (prev = true ∧ isIdentStart b = true)) :
    quoteKeys false prev (b :: s) = b :: quoteKeys false false s := by
  rw [quoteKeys.eq_def]
  simp [hq, hopen, hws, hident]

/-- What is written for what is read in one turn. -/
inductive Emits : Str → Str → Prop where
  | byte (c : Char) : Emits [c] [c]
  | escape (c : Char) : Emits ['\\', c] ['\\', c]
  | bare {ident : Str} (h : ∀ c ∈ ident, isIdentByte c = true) : Emits ident ident
  | key {ident : Str} (h : ∀ c ∈ ident, isIdentByte c = true) : Emits ident ('"' :: ident ++ ['"'])
  | keyEq {ident ws : Str} (h : ∀ c ∈ ident, isIdentByte c = true)
      (hws : ∀ c ∈ ws, isAsciiWhitespace c = true) :
      Emits (ident ++ ws ++ ['=']) ('"' :: ident ++ '"' :: ws ++ [':'])

/-- The turn that meets an identifier where a key may stand. -/
lemma quoteKeys_turn_ident (hstart : isIdentStart b = true) :
    ∃ consumed rest piece inString' prev', b :: s = consumed ++ rest ∧ consumed ≠ [] ∧
      Emits consumed piece ∧
      quoteKeys false true (b :: s) = piece ++ quoteKeys inString' prev' rest := by
  have hident : ∀ c ∈ b :: s.takeWhile isIdentByte, isIdentByte c = true :=
    List.forall_mem_cons.mpr
      ⟨isIdentByte_of_isIdentStart hstart, fun c hc => List.mem_takeWhile_imp hc⟩
  have hsplit : b :: s = (b :: s.takeWhile isIdentByte) ++ s.dropWhile isIdentByte := by
    rw [List.cons_append, List.takeWhile_append_dropWhile]
  have hquote := quoteKeys_ident (s := s) hstart
  rw [hquote, hsplit]
  simp only
  have hne : b :: s.takeWhile isIdentByte ≠ [] := List.cons_ne_nil _ _
  generalize b :: s.takeWhile isIdentByte = ident at *
  generalize s.dropWhile isIdentByte = rest at *
  have hws : ∀ c ∈ rest.takeWhile isAsciiWhitespace, isAsciiWhitespace c = true :=
    fun c hc => List.mem_takeWhile_imp hc
  have hrest : rest = rest.takeWhile isAsciiWhitespace ++ rest.dropWhile isAsciiWhitespace :=
    List.takeWhile_append_dropWhile.symm
  split_ifs with heq hcolon
  · obtain ⟨tail, htail⟩ := List.head?_eq_some_iff.mp heq
    refine ⟨_, tail, _, false, false, ?_, by simp, .keyEq hident hws, ?_⟩
    · rw [htail] at hrest
      conv_lhs => rw [hrest]
      simp
    · simp [htail]
  · exact ⟨ident, rest, _, false, false, rfl, hne, .key hident, by simp⟩
  · exact ⟨ident, rest, ident, false, false, rfl, hne, .bare hident, rfl⟩

/-- One turn of the scanner. -/
lemma quoteKeys_turn (inString prev : Bool) (b : Char) (s : Str) :
    ∃ consumed rest piece inString' prev', b :: s = consumed ++ rest ∧ consumed ≠ [] ∧
      Emits consumed piece ∧
      quoteKeys inString prev (b :: s) = piece ++ quoteKeys inString' prev' rest := by
  cases inString with
  | true =>
    by_cases hb : b ≠ '\\' ∨ s = []
    · exact ⟨[b], s, [b], _, _, rfl, List.cons_ne_nil _ _, .byte b, quoteKeys_inString hb⟩
    · obtain ⟨hb, hs⟩ := not_or.mp hb
      obtain rfl := not_ne_iff.mp hb
      obtain ⟨c, s, rfl⟩ := List.exists_cons_of_ne_nil hs
      exact ⟨['\\', c], s, ['\\', c], _, _, rfl, List.cons_ne_nil _ _, .escape c,
        quoteKeys_escape prev c s⟩
  | false =>
    by_cases hq : b = '"'
    · subst hq
      exact ⟨['"'], s, ['"'], _, _, rfl, List.cons_ne_nil _ _, .byte _, quoteKeys_quote prev s⟩
    · by_cases hopen : b = '{' ∨ b = ','
      · exact ⟨[b], s, [b], _, _, rfl, List.cons_ne_nil _ _, .byte b, quoteKeys_open hopen⟩
      · by_cases hws : isAsciiWhitespace b = true
        · exact ⟨[b], s, [b], _, _, rfl, List.cons_ne_nil _ _, .byte b, quoteKeys_space hws⟩
        · by_cases hident : prev = true ∧ isIdentStart b = true
          · obtain ⟨rfl, hstart⟩ := hident
            exact quoteKeys_turn_ident hstart
          · exact ⟨[b], s, [b], _, _, rfl, List.cons_ne_nil _ _, .byte b,
              quoteKeys_other hq hopen hws hident⟩

end QuoteKeys

/-! ### The loops -/

lemma escapeStringControls_turns (bytes : Str) (s : EscapeState) :
    Turns (escapeStringControlsTurn bytes) (fun _ => True) (fun s => bytes.length - s.i)
      (fun s => .ok (s.out ++ escapeControls s.inString (bytes.drop s.i))) s := by
  obtain ⟨i, out, inString⟩ := s
  cases hdrop : bytes.drop i with
  | nil =>
    refine .done out ?_ ?_
    · rw [escapeStringControlsTurn, if_neg (le_of_drop_eq_nil hdrop)]
    · simp [hdrop, escapeControls]
  | cons b rest =>
    obtain ⟨hlt, hb, hrest⟩ := byteAt_of_drop hdrop
    cases inString with
    | false =>
      by_cases hq : b = '"'
      · refine .next ⟨i + 1, out ++ ['"'], true⟩ ?_ trivial (by simp only; omega) ?_
        · simp [escapeStringControlsTurn, hlt, hb, hq]
        · simp [hdrop, hrest, escapeControls, hq]
      · refine .next ⟨i + 1, out ++ [b], false⟩ ?_ trivial (by simp only; omega) ?_
        · simp [escapeStringControlsTurn, hlt, hb, hq]
        · simp [hdrop, hrest, escapeControls, hq]
    | true =>
      by_cases hbs : b = '\\'
      · subst hbs
        cases rest with
        | nil =>
          have hend : ¬ i + 1 < bytes.length := le_of_drop_eq_nil hrest
          refine .next ⟨i + 1, out ++ ['\\'], true⟩ ?_ trivial (by simp only; omega) ?_
          · simp [escapeStringControlsTurn, hlt, hb, hend]
          · simp [hdrop, hrest, escapeControls]
        | cons c rest =>
          obtain ⟨hlt', hc, hrest'⟩ := byteAt_of_drop hrest
          by_cases hvalid : isValidEscape c
          · refine .next ⟨i + 2, out ++ ['\\', c], true⟩ ?_ trivial (by simp only; omega) ?_
            · simp [escapeStringControlsTurn, hlt, hb, hlt', hc, hvalid]
            · simp [hdrop, hrest', escapeControls, hvalid]
          · refine .next ⟨i + 1, out ++ ['\\', '\\'], true⟩ ?_ trivial (by simp only; omega) ?_
            · simp [escapeStringControlsTurn, hlt, hb, hlt', hc, hvalid]
            · simp [hdrop, hrest, escapeControls, hvalid]
      · by_cases hq : b = '"'
        · subst hq
          refine .next ⟨i + 1, out ++ ['"'], false⟩ ?_ trivial (by simp only; omega) ?_
          · simp [escapeStringControlsTurn, hlt, hb]
          · simp [hdrop, hrest, escapeControls]
        · by_cases hctl : b.toNat ≤ 0x1F
          · refine .next ⟨i + 1, out ++ escapeControl b, true⟩ ?_ trivial (by simp only; omega) ?_
            · simp [escapeStringControlsTurn, hlt, hb, hbs, hq, hctl]
            · simp [hdrop, hrest, escapeControls, hbs, hq, hctl]
          · refine .next ⟨i + 1, out ++ [b], true⟩ ?_ trivial (by simp only; omega) ?_
            · simp [escapeStringControlsTurn, hlt, hb, hbs, hq, hctl]
            · simp [hdrop, hrest, escapeControls, hbs, hq, hctl]

/-- `escape_string_controls` returns. -/
lemma escapeStringControls_eq (raw : Str) :
    escapeStringControls raw = .ok (escapeControls false raw.bytes) := by
  rw [escapeStringControls, loop_eq (fun s _ => escapeStringControls_turns raw.bytes s) trivial
    (by simp only; omega)]
  rfl

lemma hasTopLevelComma_turns (bytes : Str) (s : CommaState) :
    Turns (hasTopLevelCommaTurn bytes) (fun _ => True) (fun s => bytes.length - s.i)
      (fun s => .ok (topLevelComma s.depth s.inString (bytes.drop s.i))) s := by
  obtain ⟨i, depth, inString⟩ := s
  cases hdrop : bytes.drop i with
  | nil =>
    refine .done false ?_ ?_
    · rw [hasTopLevelCommaTurn, if_neg (le_of_drop_eq_nil hdrop)]
    · simp [hdrop, topLevelComma]
  | cons b rest =>
    obtain ⟨hlt, hb, hrest⟩ := byteAt_of_drop hdrop
    cases inString with
    | true =>
      by_cases hbs : b = '\\'
      · subst hbs
        cases rest with
        | nil =>
          have hend : ¬ i + 1 < bytes.length := le_of_drop_eq_nil hrest
          refine .next ⟨i + 1, depth, true⟩ ?_ trivial (by simp only; omega) ?_
          · simp [hasTopLevelCommaTurn, hlt, hb, hend]
          · simp [hdrop, hrest, topLevelComma]
        | cons c rest =>
          obtain ⟨hlt', -, hrest'⟩ := byteAt_of_drop hrest
          refine .next ⟨i + 2, depth, true⟩ ?_ trivial (by simp only; omega) ?_
          · simp [hasTopLevelCommaTurn, hlt, hb, hlt']
          · simp [hdrop, hrest', topLevelComma]
      · refine .next ⟨i + 1, depth, b ≠ '"'⟩ ?_ trivial (by simp only; omega) ?_
        · simp [hasTopLevelCommaTurn, hlt, hb, hbs]
        · simp [hdrop, hrest, topLevelComma_true_cons hbs]
    | false =>
      by_cases hq : b = '"'
      · refine .next ⟨i + 1, depth, true⟩ ?_ trivial (by simp only; omega) ?_
        · simp [hasTopLevelCommaTurn, hlt, hb, hq]
        · simp [hdrop, hrest, topLevelComma, hq]
      · by_cases hopen : b = '[' ∨ b = '{'
        · refine .next ⟨i + 1, depth + 1, false⟩ ?_ trivial (by simp only; omega) ?_
          · simp [hasTopLevelCommaTurn, hlt, hb, hq, hopen]
          · simp [hdrop, hrest, topLevelComma, hq, hopen]
        · by_cases hclose : b = ']' ∨ b = '}'
          · refine .next ⟨i + 1, depth - 1, false⟩ ?_ trivial (by simp only; omega) ?_
            · simp [hasTopLevelCommaTurn, hlt, hb, hq, hopen, hclose]
            · simp [hdrop, hrest, topLevelComma, hq, hopen, hclose]
          · by_cases hcomma : b = ',' ∧ depth = 0
            · refine .done true ?_ ?_
              · simp [hasTopLevelCommaTurn, hlt, hb, hcomma]
              · simp [hdrop, topLevelComma, hcomma]
            · refine .next ⟨i + 1, depth, false⟩ ?_ trivial (by simp only; omega) ?_
              · simp [hasTopLevelCommaTurn, hlt, hb, hq, hopen, hclose, hcomma]
              · simp [hdrop, hrest, topLevelComma, hq, hopen, hclose, hcomma]

/-- `has_top_level_comma` returns. -/
lemma hasTopLevelComma_eq (s : Str) :
    hasTopLevelComma s = .ok (topLevelComma 0 false s.bytes) := by
  rw [hasTopLevelComma, loop_eq (fun t _ => hasTopLevelComma_turns s.bytes t) trivial
    (by simp only; omega)]
  rfl

lemma skipWhile_eq (p : Char → Bool) (bytes : Str) (i : ℕ) :
    skipWhile p bytes i = .ok (i + ((bytes.drop i).takeWhile p).length) := by
  rw [skipWhile, loop_eq (I := fun _ => True) (m := fun i => bytes.length - i) ?_ trivial
    (by omega)]
  intro i _
  cases hdrop : bytes.drop i with
  | nil =>
    refine .done i ?_ ?_
    · rw [if_neg (le_of_drop_eq_nil hdrop)]
    · simp [hdrop]
  | cons b rest =>
    obtain ⟨hlt, hb, hrest⟩ := byteAt_of_drop hdrop
    by_cases hp : p b
    · refine .next (i + 1) ?_ trivial (by omega) ?_
      · simp [hlt, hb, hp]
      · simp only [hdrop, hrest, List.takeWhile_cons_of_pos hp, List.length_cons]
        rw [Nat.add_assoc, Nat.add_comm 1]
    · refine .done i ?_ ?_
      · simp [hlt, hb, hp]
      · simp [hdrop, hp]

/-- The slices taken around an identifier and the white space behind it. -/
lemma slice_ident {raw ident ws behind : Str} {i : ℕ}
    (hdrop : raw.bytes.drop i = ident ++ (ws ++ behind)) (hne : ident ≠ [])
    (hident : ∀ c ∈ ident, isIdentByte c = true) (hws : ∀ c ∈ ws, isAsciiWhitespace c = true) :
    slice raw i (i + ident.length) = .ok ident ∧
      slice raw (i + ident.length) (i + ident.length + ws.length) = .ok ws := by
  have hascii : ∀ c ∈ ident, isAscii c := fun c hc => isAscii_of_isIdentByte (hident c hc)
  have hasciiWs : ∀ c ∈ ws, isAscii c := fun c hc => isAscii_of_isAsciiWhitespace (hws c hc)
  obtain ⟨b, ident', rfl⟩ := List.exists_cons_of_ne_nil hne
  obtain ⟨front, back, hraw, rfl, hback⟩ := exists_cut (hascii b List.mem_cons_self) hdrop
  obtain ⟨back₁, rfl, hback₁⟩ := exists_of_bytes_eq_append hascii hback
  obtain ⟨back₂, rfl, -⟩ := exists_of_bytes_eq_append hasciiWs hback₁
  rw [← len_of_isAscii hascii, ← len_of_isAscii hasciiWs, hraw]
  constructor
  · rw [← List.append_assoc]
    exact slice_append front _ _
  · have := slice_append (front ++ b :: ident') ws back₂
    rwa [len_append, List.append_assoc, List.append_assoc] at this

/-- The turn that meets an identifier where a key may stand. -/
lemma quoteBareKeysTurn_ident {raw out : Str} {i : ℕ} {b : Char} {rest : Str}
    (hdrop : raw.bytes.drop i = b :: rest) (hstart : isIdentStart b = true) :
    Turns (quoteBareKeysTurn raw) (fun _ => True) (fun s => raw.bytes.length - s.i)
      (fun s => .ok (s.out ++ quoteKeys s.inString s.prevWasOpenOrComma (raw.bytes.drop s.i)))
      ⟨i, out, false, true⟩ := by
  obtain ⟨hq, hopen, hws⟩ := ne_of_isIdentStart hstart
  obtain ⟨hlt, hb, -⟩ := byteAt_of_drop hdrop
  have hquote := quoteKeys_ident (s := rest) hstart
  have htake : (b :: rest).takeWhile isIdentByte = b :: rest.takeWhile isIdentByte :=
    List.takeWhile_cons_of_pos (isIdentByte_of_isIdentStart hstart)
  have hident : ∀ c ∈ b :: rest.takeWhile isIdentByte, isIdentByte c = true := by
    rw [← htake]
    exact fun c hc => List.mem_takeWhile_imp hc
  have hskip := skipWhile_eq isIdentByte raw.bytes i
  rw [hdrop, htake] at hskip
  have hsplit : raw.bytes.drop i =
      (b :: rest.takeWhile isIdentByte) ++ rest.dropWhile isIdentByte := by
    rw [hdrop, List.cons_append, List.takeWhile_append_dropWhile]
  have hne : b :: rest.takeWhile isIdentByte ≠ [] := List.cons_ne_nil _ _
  generalize b :: rest.takeWhile isIdentByte = ident at *
  generalize rest.dropWhile isIdentByte = rest₁ at *
  have hspace : ∀ c ∈ rest₁.takeWhile isAsciiWhitespace, isAsciiWhitespace c = true :=
    fun c hc => List.mem_takeWhile_imp hc
  have hdrop₁ := drop_add_of_drop hsplit
  have hskip₁ := skipWhile_eq isAsciiWhitespace raw.bytes (i + ident.length)
  rw [hdrop₁] at hskip₁
  rw [← List.takeWhile_append_dropWhile (p := isAsciiWhitespace) (l := rest₁)] at hsplit
  obtain ⟨hslice, hslice₁⟩ := slice_ident hsplit hne hident hspace
  have hdrop₂ : raw.bytes.drop (i + ident.length + (rest₁.takeWhile isAsciiWhitespace).length) =
      rest₁.dropWhile isAsciiWhitespace := by
    apply drop_add_of_drop
    rw [hdrop₁, List.takeWhile_append_dropWhile]
  have hlen : 0 < ident.length := List.length_pos_iff.mpr hne
  have hsep := List.head?_drop (l := raw.bytes)
    (i := i + ident.length + (rest₁.takeWhile isAsciiWhitespace).length)
  rw [hdrop₂] at hsep
  by_cases heq : (rest₁.dropWhile isAsciiWhitespace).head? = some '='
  · refine .next ⟨i + ident.length + (rest₁.takeWhile isAsciiWhitespace).length + 1,
      out ++ ['"'] ++ ident ++ ['"'] ++ rest₁.takeWhile isAsciiWhitespace ++ [':'], false, false⟩
      ?_ trivial (by simp only; omega) ?_
    · simp [quoteBareKeysTurn, hlt, hb, hq, hopen, hws, hstart, hskip, hslice, hskip₁, hslice₁,
        ← hsep, heq]
    · simp [hdrop, hquote, heq, ← List.drop_drop, hdrop₂]
  · by_cases hcolon : (rest₁.dropWhile isAsciiWhitespace).head? = some ':'
    · refine .next ⟨i + ident.length, out ++ ['"'] ++ ident ++ ['"'], false, false⟩
        ?_ trivial (by simp only; omega) ?_
      · simp [quoteBareKeysTurn, hlt, hb, hq, hopen, hws, hstart, hskip, hslice, hskip₁, ← hsep,
          hcolon]
      · simp [hdrop, hquote, hcolon, hdrop₁]
    · refine .next ⟨i + ident.length, out ++ ident, false, false⟩
        ?_ trivial (by simp only; omega) ?_
      · simp [quoteBareKeysTurn, hlt, hb, hq, hopen, hws, hstart, hskip, hslice, hskip₁, ← hsep,
          heq, hcolon]
      · simp [hdrop, hquote, heq, hcolon, hdrop₁]

lemma quoteBareKeys_turns (raw : Str) (s : QuoteState) :
    Turns (quoteBareKeysTurn raw) (fun _ => True) (fun s => raw.bytes.length - s.i)
      (fun s => .ok (s.out ++ quoteKeys s.inString s.prevWasOpenOrComma (raw.bytes.drop s.i)))
      s := by
  obtain ⟨i, out, inString, prev⟩ := s
  cases hdrop : raw.bytes.drop i with
  | nil =>
    refine .done out ?_ ?_
    · rw [quoteBareKeysTurn, if_neg (le_of_drop_eq_nil hdrop)]
    · simp [hdrop]
  | cons b rest =>
    obtain ⟨hlt, hb, hrest⟩ := byteAt_of_drop hdrop
    cases inString with
    | true =>
      by_cases hbs : b = '\\'
      · subst hbs
        cases rest with
        | nil =>
          have hend : ¬ i + 1 < raw.bytes.length := le_of_drop_eq_nil hrest
          refine .next ⟨i + 1, out ++ ['\\'], true, prev⟩ ?_ trivial (by simp only; omega) ?_
          · simp [quoteBareKeysTurn, hlt, hb, hend]
          · simp [hdrop, hrest, quoteKeys_inString (.inr rfl)]
        | cons c rest =>
          obtain ⟨hlt', hc, hrest'⟩ := byteAt_of_drop hrest
          refine .next ⟨i + 2, out ++ ['\\'] ++ [c], true, prev⟩ ?_ trivial (by simp only; omega) ?_
          · simp [quoteBareKeysTurn, hlt, hb, hlt', hc]
          · simp [hdrop, hrest']
      · refine .next ⟨i + 1, out ++ [b], b ≠ '"', prev⟩ ?_ trivial (by simp only; omega) ?_
        · simp [quoteBareKeysTurn, hlt, hb, hbs]
        · simp [hdrop, hrest, quoteKeys_inString (.inl hbs)]
    | false =>
      by_cases hq : b = '"'
      · refine .next ⟨i + 1, out ++ ['"'], true, false⟩ ?_ trivial (by simp only; omega) ?_
        · simp [quoteBareKeysTurn, hlt, hb, hq]
        · simp [hdrop, hrest, hq]
      · by_cases hopen : b = '{' ∨ b = ','
        · refine .next ⟨i + 1, out ++ [b], false, true⟩ ?_ trivial (by simp only; omega) ?_
          · simp [quoteBareKeysTurn, hlt, hb, hq, hopen]
          · simp [hdrop, hrest, quoteKeys_open hopen]
        · by_cases hws : isAsciiWhitespace b
          · refine .next ⟨i + 1, out ++ [b], false, prev⟩ ?_ trivial (by simp only; omega) ?_
            · simp [quoteBareKeysTurn, hlt, hb, hq, hopen, hws]
            · simp [hdrop, hrest, quoteKeys_space hws]
          · by_cases hident : prev = true ∧ isIdentStart b = true
            · obtain ⟨rfl, hident⟩ := hident
              exact quoteBareKeysTurn_ident hdrop hident
            · refine .next ⟨i + 1, out ++ [b], false, false⟩ ?_ trivial (by simp only; omega) ?_
              · simp [quoteBareKeysTurn, hlt, hb, hq, hopen, hws, hident]
              · simp [hdrop, hrest, quoteKeys_other hq hopen hws hident]

/-- `quote_bare_keys` returns. -/
lemma quoteBareKeys_eq (raw : Str) : quoteBareKeys raw = .ok (quoteKeys false false raw.bytes) := by
  rw [quoteBareKeys, loop_eq (fun s _ => quoteBareKeys_turns raw s) trivial (by simp only; omega)]
  rfl

/-! ### Escaped quotes -/

/-- The offsets of the escaped quotes of a text that starts at `pos`. -/
def quotePositions (pos : ℕ) : Str → List ℕ
  | []                 => []
  | [_]                => []
  | b :: next :: s =>
    if b = '\\' ∧ next = '"' then pos :: quotePositions (pos + 2) s
    else quotePositions (pos + 1) (next :: s)

lemma collect_turns (base : ℕ) (bytes : Str) (s : ℕ × List ℕ) :
    Turns (collectTurn base bytes) (fun _ => True) (fun s => bytes.length - s.1)
      (fun s => .ok (s.2 ++ quotePositions (base + s.1) (bytes.drop s.1))) s := by
  obtain ⟨i, out⟩ := s
  cases hdrop : bytes.drop (i + 1) with
  | nil =>
    refine .done out ?_ ?_
    · simp [collectTurn, le_of_drop_eq_nil hdrop]
    · have hle : (bytes.drop i).length ≤ 1 := by
        have := congrArg List.length hdrop
        simp only [List.length_drop, List.length_nil] at this ⊢
        omega
      match bytes.drop i, hle with
      | [], _  => simp [quotePositions]
      | [_], _ => simp [quotePositions]
  | cons next rest =>
    obtain ⟨hlt, hnext, hrest⟩ := byteAt_of_drop hdrop
    obtain ⟨b, hb⟩ : ∃ b, bytes.drop i = b :: next :: rest := by
      have hi : i < bytes.length := by omega
      exact ⟨bytes[i], by rw [List.drop_eq_getElem_cons hi, hdrop]⟩
    have hbyte := (byteAt_of_drop hb).2.1
    by_cases hquote : b = '\\' ∧ next = '"'
    · refine .next (i + 2, out ++ [base + i]) ?_ trivial (by simp only; omega) ?_
      · simp [collectTurn, hlt, hbyte, hnext, hquote]
      · simp [hb, quotePositions, hquote, hrest, Nat.add_assoc]
    · refine .next (i + 1, out) ?_ trivial (by simp only; omega) ?_
      · simp [collectTurn, hlt, hbyte, hnext, hquote]
      · simp only [hb, hdrop, quotePositions, if_neg hquote, Nat.add_assoc]

lemma collect_eq (out : List ℕ) (m : ℕ × Str) :
    collect out m = .ok (out ++ quotePositions m.1 m.2.bytes) := by
  rw [collect, loop_eq (fun s _ => collect_turns m.1 m.2.bytes s) trivial (by simp only; omega)]
  rfl

lemma mem_quotePositions {pos p : ℕ} {s : Str} (h : p ∈ quotePositions pos s) :
    ∃ k r, p = pos + k ∧ s.drop k = '\\' :: '"' :: r := by
  induction pos, s using quotePositions.induct with
  | case1 => cases h
  | case2 => cases h
  | case3 pos b next s hquote ih =>
    rw [quotePositions, if_pos hquote] at h
    obtain ⟨rfl, rfl⟩ := hquote
    rcases List.mem_cons.mp h with rfl | h
    · exact ⟨0, s, rfl, rfl⟩
    · obtain ⟨k, r, rfl, hk⟩ := ih h
      exact ⟨k + 2, r, by omega, hk⟩
  | case4 pos b next s hquote ih =>
    rw [quotePositions, if_neg hquote] at h
    obtain ⟨k, r, rfl, hk⟩ := ih h
    exact ⟨k + 1, r, by omega, hk⟩

/-- An escaped quote stands at the offset. -/
def QuoteAt (raw : Str) (pos : ℕ) : Prop := ∃ r, raw.bytes.drop pos = '\\' :: '"' :: r

lemma quoteAt_of_mem_quotePositions {raw a m b : Str} {pos : ℕ} (hraw : raw = a ++ m ++ b)
    (h : pos ∈ quotePositions a.len m.bytes) : QuoteAt raw pos := by
  obtain ⟨k, r, rfl, hk⟩ := mem_quotePositions h
  refine ⟨r ++ b.bytes, ?_⟩
  have hk' : k ≤ m.bytes.length := (byteAt_of_drop hk).1.le
  rw [hraw, bytes_append, bytes_append, List.append_assoc, len, List.drop_append,
    List.drop_eq_nil_of_le (by omega), Nat.add_sub_cancel_left, List.drop_append_of_le_length hk',
    hk]
  rfl

end ModelApi.Gemma
