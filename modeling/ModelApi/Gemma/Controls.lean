import ModelApi.Gemma.Scan
import ModelApi.Lib.InString

/-!
# Escaped control characters

`escape_string_controls` brings the strings of a text into a form that it leaves alone, and touches
nothing outside them.
-/

namespace ModelApi.Gemma

open Lib Lib.Str

/-- Where the scanner of the strings is. -/
def stateOf (inString : Bool) : ScanState := if inString then .inString else .outside

@[simp] lemma stateOf_true : stateOf true = .inString := rfl

@[simp] lemma stateOf_false : stateOf false = .outside := rfl

lemma next_stateOf_false (b : Char) : ScanState.outside.next b = stateOf (b = '"') := by
  by_cases hb : b = '"' <;> simp [ScanState.next, hb]

/-- No control character stands in a string, and every backslash in one begins an escape. -/
structure Normal (q : ScanState) (s : Str) : Prop where
  controls : ∀ c ∈ readIn (· ≠ .outside) q s, 0x20 ≤ c.toNat
  escapes : ∀ c ∈ readIn (· = .skipping) q s, isValidEscape c = true

lemma normal_iff {q : ScanState} {s : Str} : Normal q s ↔
    (∀ c ∈ readIn (· ≠ .outside) q s, 0x20 ≤ c.toNat) ∧
      ∀ c ∈ readIn (· = .skipping) q s, isValidEscape c = true :=
  ⟨fun h => ⟨h.controls, h.escapes⟩, fun h => ⟨h.1, h.2⟩⟩

/-! ### Escapes -/

lemma plain_of_control {b : Char} (hb : b.toNat ≤ 0x1F) : Plain b := by
  constructor <;> rintro rfl <;> revert hb <;> decide

lemma le_toNat_of_isValidEscape {c : Char} (h : isValidEscape c = true) : 0x20 ≤ c.toNat := by
  simp only [isValidEscape, Bool.or_eq_true, beq_iff_eq] at h
  rcases h with (((((((rfl | rfl) | rfl) | rfl) | rfl) | rfl) | rfl) | rfl) | rfl <;> decide

lemma plain_of_not_isValidEscape {c : Char} (h : ¬ isValidEscape c = true) : Plain c := by
  constructor <;> rintro rfl <;> exact h rfl

/-- The escape of a control character: a backslash, a letter and perhaps digits. -/
structure IsEscape (e : Char) (ds : Str) : Prop where
  valid : isValidEscape e = true
  plain : ∀ d ∈ ds, Plain d
  visible : ∀ d ∈ ds, 0x20 ≤ d.toNat
  ascii : ∀ d ∈ ds, isAscii d

lemma exists_escapeControl {b : Char} (hb : b.toNat ≤ 0x1F) :
    ∃ e ds, escapeControl b = '\\' :: e :: ds ∧ IsEscape e ds := by
  have hdigit : ∀ n < 16, (Nat.digitChar n ≠ '"' ∧ Nat.digitChar n ≠ '\\') ∧
      0x20 ≤ (Nat.digitChar n).toNat ∧ isAscii (Nat.digitChar n) := by decide
  rw [escapeControl]
  split_ifs
  · exact ⟨'n', [], rfl, rfl, nofun, nofun, nofun⟩
  · exact ⟨'r', [], rfl, rfl, nofun, nofun, nofun⟩
  · exact ⟨'t', [], rfl, rfl, nofun, nofun, nofun⟩
  · have hhigh := hdigit (b.toNat / 16) (by omega)
    have hlow := hdigit (b.toNat % 16) (by omega)
    refine ⟨'u', _, rfl, rfl, ?_, ?_, ?_⟩
    · simp [Plain, hhigh.1, hlow.1]
    · simp [hhigh.2.1, hlow.2.1]
    · have hzero : isAscii '0' := by decide
      simp [hhigh.2.2, hlow.2.2, hzero]

/-- How the scanner reads a text, and what it writes: one constructor for each branch. -/
inductive Escapes : Bool → Str → Str → Prop where
  | nil (inString : Bool) : Escapes inString [] []
  | outside {b : Char} {s t : Str} (h : Escapes (b = '"') s t) : Escapes false (b :: s) (b :: t)
  | last : Escapes true ['\\'] ['\\']
  | pair {c : Char} {s t : Str} (hc : isValidEscape c = true) (h : Escapes true s t) :
      Escapes true ('\\' :: c :: s) ('\\' :: c :: t)
  /-- the byte behind the backslash is read again -/
  | lone {c : Char} {s t : Str} (hc : ¬ isValidEscape c = true) (h : Escapes true (c :: s) t) :
      Escapes true ('\\' :: c :: s) ('\\' :: '\\' :: t)
  | close {s t : Str} (h : Escapes false s t) : Escapes true ('"' :: s) ('"' :: t)
  | control {b e : Char} {ds s t : Str} (hb : b.toNat ≤ 0x1F) (he : IsEscape e ds)
      (h : Escapes true s t) : Escapes true (b :: s) ('\\' :: e :: (ds ++ t))
  | plain {b : Char} {s t : Str} (hb : Plain b) (hvisible : 0x20 ≤ b.toNat) (h : Escapes true s t) :
      Escapes true (b :: s) (b :: t)

lemma escapes_escapeControls (inString : Bool) (s : Str) :
    Escapes inString s (escapeControls inString s) := by
  induction inString, s using escapeControls.induct with
  | case1 inString =>
    rw [escapeControls]
    exact .nil inString
  | case2 b s ih =>
    rw [escapeControls]
    exact .outside ih
  | case3 => exact .last
  | case4 c s hc ih =>
    rw [escapeControls, if_pos hc]
    exact .pair hc ih
  | case5 c s hc ih =>
    rw [escapeControls, if_neg hc]
    exact .lone hc ih
  | case6 s _ _ ih =>
    have hquote : escapeControls true ('"' :: s) = '"' :: escapeControls false s := by
      simp [escapeControls]
    rw [hquote]
    exact .close ih
  | case7 b s hlast hpair hquote hb ih =>
    obtain ⟨e, ds, hescape, he⟩ := exists_escapeControl hb
    rw [escapeControls, if_neg hquote, if_pos hb, hescape]
    · exact .control hb he ih
    · exact hlast
    · exact hpair
  | case8 b s hlast hpair hquote hb ih =>
    have hbackslash : b ≠ '\\' := by
      rintro rfl
      cases s with
      | nil => exact hlast rfl rfl
      | cons c s => exact hpair c s rfl rfl
    rw [escapeControls, if_neg hquote, if_neg hb]
    · exact .plain ⟨hquote, hbackslash⟩ (by omega) ih
    · exact hlast
    · exact hpair

/-- What is outside of the strings of a text is not touched. -/
lemma Escapes.outside_eq {inString : Bool} {s t : Str} (h : Escapes inString s t) :
    readIn (· = .outside) (stateOf inString) t = readIn (· = .outside) (stateOf inString) s := by
  induction h with
  | nil => rfl
  | outside h ih => simp [readIn, next_stateOf_false, ih]
  | last => rfl
  | pair hc h ih => simpa [readIn] using ih
  | @lone c s t hc h ih => simpa [readIn, next_inString (plain_of_not_isValidEscape hc)] using ih
  | close h ih => simpa [readIn] using ih
  | @control b e ds s t hb he h ih =>
    have hds : readIn (· = .outside) .inString (ds ++ t) = readIn (· = .outside) .inString t :=
      readIn_plain_of_neg rfl he.plain
    simpa [readIn, next_inString (plain_of_control hb), hds] using ih
  | plain hb hvisible h ih => simpa [readIn, next_inString hb] using ih

lemma Escapes.ascii {inString : Bool} {s t : Str} (h : Escapes inString s t)
    (hs : ∀ c ∈ s, isAscii c) : ∀ c ∈ t, isAscii c := by
  have hbackslash : isAscii '\\' := by decide
  induction h with
  | nil => exact hs
  | outside h ih | close h ih | plain _ _ h ih =>
    obtain ⟨hb, hs⟩ := List.forall_mem_cons.mp hs
    exact List.forall_mem_cons.mpr ⟨hb, ih hs⟩
  | last => exact hs
  | pair hc h ih =>
    simp only [List.forall_mem_cons] at hs ⊢
    exact ⟨hs.1, hs.2.1, ih hs.2.2⟩
  | lone hc h ih =>
    simp only [List.forall_mem_cons] at hs ⊢
    exact ⟨hs.1, hs.1, ih (List.forall_mem_cons.mpr hs.2)⟩
  | control hb he h ih =>
    simp only [List.forall_mem_cons, List.forall_mem_append] at hs ⊢
    exact ⟨hbackslash, isAscii_of_isValidEscape he.valid, he.ascii, ih hs.2⟩

/-! ### Normal forms -/

section Normal

variable {b c : Char} {s t : Str}

lemma normal_nil (q : ScanState) : Normal q [] := ⟨nofun, nofun⟩

lemma normal_last : Normal .inString ['\\'] := ⟨by simp [readIn], by simp [readIn]⟩

lemma normal_outside : Normal .outside (b :: s) ↔ Normal (stateOf (b = '"')) s := by
  simp [normal_iff, readIn, next_stateOf_false]

lemma normal_pair :
    Normal .inString ('\\' :: c :: s) ↔ isValidEscape c = true ∧ Normal .inString s := by
  have hvisible : isValidEscape c = true → 0x20 ≤ c.toNat := le_toNat_of_isValidEscape
  simp [normal_iff, readIn]
  tauto

lemma normal_close : Normal .inString ('"' :: s) ↔ Normal .outside s := by
  simp [normal_iff, readIn]

lemma normal_plain (hb : Plain b) :
    Normal .inString (b :: s) ↔ 0x20 ≤ b.toNat ∧ Normal .inString s := by
  simp [normal_iff, readIn, next_inString hb, and_assoc]

lemma normal_plain_append {ds : Str} (hplain : ∀ d ∈ ds, Plain d)
    (hvisible : ∀ d ∈ ds, 0x20 ≤ d.toNat) (h : Normal .inString s) :
    Normal .inString (ds ++ s) := by
  induction ds with
  | nil => exact h
  | cons d ds ih =>
    obtain ⟨hd, hplain⟩ := List.forall_mem_cons.mp hplain
    obtain ⟨hd', hvisible⟩ := List.forall_mem_cons.mp hvisible
    exact (normal_plain hd).mpr ⟨hd', ih hplain hvisible⟩

end Normal

/-- The scanner writes a normal form. -/
lemma Escapes.normal {inString : Bool} {s t : Str} (h : Escapes inString s t) :
    Normal (stateOf inString) t := by
  induction h with
  | nil inString => exact normal_nil _
  | outside h ih => exact normal_outside.mpr ih
  | last => exact normal_last
  | pair hc h ih => exact normal_pair.mpr ⟨hc, ih⟩
  | lone hc h ih => exact normal_pair.mpr ⟨rfl, ih⟩
  | close h ih => exact normal_close.mpr ih
  | control hb he h ih =>
    exact normal_pair.mpr ⟨he.valid, normal_plain_append he.plain he.visible ih⟩
  | plain hb hvisible h ih => exact (normal_plain hb).mpr ⟨hvisible, ih⟩

/-- A normal form stays as it is. -/
lemma Escapes.eq_of_normal {inString : Bool} {s t : Str} (h : Escapes inString s t)
    (hs : Normal (stateOf inString) s) : t = s := by
  induction h with
  | nil => rfl
  | outside h ih => rw [ih (normal_outside.mp hs)]
  | last => rfl
  | pair hc h ih => rw [ih (normal_pair.mp hs).2]
  | lone hc h ih => exact absurd (normal_pair.mp hs).1 hc
  | close h ih => rw [ih (normal_close.mp hs)]
  | control hb he h ih =>
    have hvisible := ((normal_plain (plain_of_control hb)).mp hs).1
    omega
  | plain hb hvisible h ih => rw [ih ((normal_plain hb).mp hs).2]

/-- The control characters in the strings are escaped, every backslash in them begins an escape, the
rest of the text is not touched, and another pass changes nothing. -/
theorem escapeStringControls_normal {x : Str} (hx : ∀ c ∈ x, isAscii c) :
    ∃ y, escapeStringControls x = .ok y ∧
      (∀ c ∈ insideStrings y, 0x20 ≤ c.toNat) ∧
      (∀ c ∈ escapedChars y, isValidEscape c = true) ∧
      outsideStrings y = outsideStrings x ∧ escapeStringControls y = .ok y := by
  have hescapes := escapes_escapeControls false x
  have hagain := escapes_escapeControls false (escapeControls false x)
  refine ⟨escapeControls false x, ?_, hescapes.normal.controls, hescapes.normal.escapes,
    hescapes.outside_eq, ?_⟩
  · rw [escapeStringControls_eq, bytes_of_isAscii hx]
  · rw [escapeStringControls_eq, bytes_of_isAscii (hescapes.ascii hx),
      hagain.eq_of_normal hescapes.normal]

/-- A lone backslash, a backslash in front of a line feed, and an open string that ends with one. -/
def drifted : Str := ['"', '\\', 'w', '\\', '\n', '"', '\n', '"', '\\']

theorem escapeStringControls_normal_demo :
    ∃ y, escapeStringControls drifted = .ok y ∧
      (∀ c ∈ insideStrings y, 0x20 ≤ c.toNat) ∧
      (∀ c ∈ escapedChars y, isValidEscape c = true) ∧
      outsideStrings y = outsideStrings drifted ∧ escapeStringControls y = .ok y :=
  escapeStringControls_normal (List.forall_iff_forall_mem.mp (by decide))

end ModelApi.Gemma
