import ModelApi.Gemma.Recovery

/-!
# How JSON is written

`serde_json::to_string`: the compact text of a value. Outside of strings it has no character of a
marker but letters, and inside it has them as they stand in the string.
-/

namespace ModelApi.Gemma

open Lib Lib.Str

variable {N : Type}

/-! ### The writer -/

/-- How a character is written in a string. -/
def writeChar (c : Char) : Str :=
  if c = '"' then ['\\', '"']
  else if c = '\\' then ['\\', '\\']
  else if c = '\n' then ['\\', 'n']
  else if c = '\r' then ['\\', 'r']
  else if c = '\t' then ['\\', 't']
  else if c = Char.ofNat 8 then ['\\', 'b']
  else if c = Char.ofNat 12 then ['\\', 'f']
  else if c.toNat < 0x20 then
    ['\\', 'u', '0', '0', Nat.digitChar (c.toNat / 16), Nat.digitChar (c.toNat % 16)]
  else [c]

def writeString (s : Str) : Str := '"' :: (s.flatMap writeChar ++ ['"'])

mutual

/-- The compact text of a value, with the texts of numbers left open. -/
def write (showNumber : N → Str) : Value N → Str
  | .null       => "null".toList
  | .bool true  => "true".toList
  | .bool false => "false".toList
  | .number n   => showNumber n
  | .string s   => writeString s
  | .array vs   => '[' :: (writeElements showNumber vs ++ [']'])
  | .object ms  => '{' :: (writeMembers showNumber ms ++ ['}'])

def writeElements (showNumber : N → Str) : List (Value N) → Str
  | []           => []
  | [v]          => write showNumber v
  | v :: w :: vs => write showNumber v ++ ',' :: writeElements showNumber (w :: vs)

def writeMembers (showNumber : N → Str) : List (Str × Value N) → Str
  | []                => []
  | [(k, v)]          => writeString k ++ ':' :: write showNumber v
  | (k, v) :: m :: ms =>
    writeString k ++ ':' :: (write showNumber v ++ ',' :: writeMembers showNumber (m :: ms))

end

mutual

/-- All strings and keys of the value have the property. -/
def Value.All (P : Str → Prop) : Value N → Prop
  | .null | .bool _ | .number _ => True
  | .string s                   => P s
  | .array vs                   => AllElements P vs
  | .object ms                  => AllMembers P ms

def Value.AllElements (P : Str → Prop) : List (Value N) → Prop
  | []      => True
  | v :: vs => v.All P ∧ AllElements P vs

def Value.AllMembers (P : Str → Prop) : List (Str × Value N) → Prop
  | []           => True
  | (k, v) :: ms => P k ∧ v.All P ∧ AllMembers P ms

end

example : write (fun n : ℕ => (toString n).toList)
    (.object [("a".toList, .array [.number 1, .null]), ("b\n".toList, .string ['"'])]) =
      "\x7b\"a\":[1,null],\"b\\n\":\"\\\"\"\x7d".toList := by
  decide +kernel

mutual

lemma Value.all_of_forall {P : Str → Prop} (h : ∀ s, P s) (v : Value N) : v.All P := by
  match v with
  | .null => trivial
  | .bool _ => trivial
  | .number _ => trivial
  | .string s => exact h s
  | .array vs => exact allElements_of_forall h vs
  | .object ms => exact allMembers_of_forall h ms

lemma Value.allElements_of_forall {P : Str → Prop} (h : ∀ s, P s) (vs : List (Value N)) :
    Value.AllElements P vs := by
  match vs with
  | [] => trivial
  | v :: vs => exact ⟨Value.all_of_forall h v, allElements_of_forall h vs⟩

lemma Value.allMembers_of_forall {P : Str → Prop} (h : ∀ s, P s) (ms : List (Str × Value N)) :
    Value.AllMembers P ms := by
  match ms with
  | [] => trivial
  | (k, v) :: ms => exact ⟨h k, Value.all_of_forall h v, allMembers_of_forall h ms⟩

end

/-! ### Strings -/

/-- A character stands for itself or is escaped. -/
lemma writeChar_cases (c : Char) :
    writeChar c = [c] ∧ c ≠ '"' ∧ c ≠ '\\' ∨
      c ≠ '<' ∧ ∃ e, writeChar c = '\\' :: e ∧ '<' ∉ e := by
  by_cases hplain : c ≠ '"' ∧ c ≠ '\\' ∧ ¬ c.toNat < 0x20
  · obtain ⟨hquote, hbackslash, hcontrol⟩ := hplain
    left
    refine ⟨?_, hquote, hbackslash⟩
    rw [writeChar, if_neg hquote, if_neg hbackslash]
    split_ifs with hn hr ht hb hf
    · exact absurd (hn ▸ hcontrol) (by decide)
    · exact absurd (hr ▸ hcontrol) (by decide)
    · exact absurd (ht ▸ hcontrol) (by decide)
    · exact absurd (hb ▸ hcontrol) (by decide)
    · exact absurd (hf ▸ hcontrol) (by decide)
    · rfl
  · right
    have hne : c ≠ '<' := by
      rintro rfl
      exact hplain (by decide)
    refine ⟨hne, ?_⟩
    rw [writeChar]
    split_ifs with hquote hbackslash hn hr ht hb hf hcontrol
    · exact ⟨['"'], rfl, by decide⟩
    · exact ⟨['\\'], rfl, by decide⟩
    · exact ⟨['n'], rfl, by decide⟩
    · exact ⟨['r'], rfl, by decide⟩
    · exact ⟨['t'], rfl, by decide⟩
    · exact ⟨['b'], rfl, by decide⟩
    · exact ⟨['f'], rfl, by decide⟩
    · have hcases : ∀ n < 0x20, '<' ∉ ['u', '0', '0', Nat.digitChar (n / 16),
          Nat.digitChar (n % 16)] := by decide
      exact ⟨_, rfl, hcases c.toNat hcontrol⟩
    · exact absurd ⟨hquote, hbackslash, hcontrol⟩ hplain

/-- What of a written string has no quotes and no backslashes is in the string. -/
lemma prefix_of_prefix_written {pat s rest : Str} (hquote : '"' ∉ pat) (hbackslash : '\\' ∉ pat)
    (h : pat <+: s.flatMap writeChar ++ '"' :: rest) : pat <+: s := by
  induction s generalizing pat with
  | nil =>
    cases pat with
    | nil => exact List.nil_prefix
    | cons p pat =>
      obtain ⟨rfl, -⟩ := List.cons_prefix_cons.mp h
      exact absurd List.mem_cons_self hquote
  | cons c s ih =>
    cases pat with
    | nil => exact List.nil_prefix
    | cons p pat =>
      rw [List.flatMap_cons, List.append_assoc] at h
      rcases writeChar_cases c with ⟨heq, -, -⟩ | ⟨-, e, heq, -⟩
      · rw [heq, List.singleton_append] at h
        obtain ⟨rfl, hpre⟩ := List.cons_prefix_cons.mp h
        have hpat := ih (fun hp => hquote (List.mem_cons_of_mem _ hp))
          (fun hp => hbackslash (List.mem_cons_of_mem _ hp)) hpre
        exact List.cons_prefix_cons.mpr ⟨rfl, hpat⟩
      · rw [heq] at h
        obtain ⟨rfl, -⟩ := List.cons_prefix_cons.mp h
        exact absurd List.mem_cons_self hbackslash

/-! ### Markers -/

/-- Behind what is written, the text does not go on with `|`. -/
def Closed (rest : Str) : Prop := rest.head? ≠ some '|'

/-- Texts that start with `<`, and that no string with the property starts when it is written. -/
structure Unwritten (P : Str → Prop) (ps : Str) : Prop where
  tail : ∀ {c s}, P (c :: s) → P s
  not_prefix : ∀ {s rest}, P ('<' :: s) → Closed rest →
    ¬ ('<' :: ps) <+: '<' :: (s.flatMap writeChar ++ '"' :: rest)

namespace Unwritten

variable {P : Str → Prop} {ps : Str} (h : Unwritten P ps)

include h

lemma not_infix_chars {s rest : Str} (hs : P s) (hclosed : Closed rest)
    (hrest : ¬ ('<' :: ps) <:+: rest) :
    ¬ ('<' :: ps) <:+: s.flatMap writeChar ++ '"' :: rest := by
  induction s with
  | nil => exact not_infix_cons (by decide) hrest
  | cons c s ih =>
    have hs' := ih (h.tail hs)
    rw [List.flatMap_cons, List.append_assoc]
    rcases writeChar_cases c with ⟨heq, -, -⟩ | ⟨-, e, heq, he⟩
    · rw [heq, List.singleton_append]
      by_cases hc : c = '<'
      · subst hc
        rw [List.infix_cons_iff, not_or]
        exact ⟨h.not_prefix hs hclosed, hs'⟩
      · exact not_infix_cons hc hs'
    · rw [heq]
      have hmem : '<' ∉ '\\' :: e := by simpa using he
      exact not_infix_append hmem hs'

lemma not_infix_string {s rest : Str} (hs : P s) (hclosed : Closed rest)
    (hrest : ¬ ('<' :: ps) <:+: rest) : ¬ ('<' :: ps) <:+: writeString s ++ rest := by
  rw [writeString, List.cons_append, List.append_assoc]
  exact not_infix_cons (by decide) (h.not_infix_chars hs hclosed hrest)

end Unwritten

section Write

variable {P : Str → Prop} {ps : Str} {showNumber : N → Str}

mutual

lemma not_infix_write (h : Unwritten P ps) (hnumber : ∀ n, '<' ∉ showNumber n) {v : Value N}
    {rest : Str} (hv : v.All P) (hclosed : Closed rest) (hrest : ¬ ('<' :: ps) <:+: rest) :
    ¬ ('<' :: ps) <:+: write showNumber v ++ rest := by
  match v with
  | .null => exact not_infix_append (by decide : '<' ∉ "null".toList) hrest
  | .bool true => exact not_infix_append (by decide : '<' ∉ "true".toList) hrest
  | .bool false => exact not_infix_append (by decide : '<' ∉ "false".toList) hrest
  | .number n => exact not_infix_append (hnumber n) hrest
  | .string s => exact h.not_infix_string hv hclosed hrest
  | .array vs =>
    rw [write, List.cons_append, List.append_assoc]
    have hclose : ¬ ('<' :: ps) <:+: ']' :: rest := not_infix_cons (by decide) hrest
    exact not_infix_cons (by decide)
      (not_infix_writeElements h hnumber hv (by simp [Closed]) hclose)
  | .object ms =>
    rw [write, List.cons_append, List.append_assoc]
    have hclose : ¬ ('<' :: ps) <:+: '}' :: rest := not_infix_cons (by decide) hrest
    exact not_infix_cons (by decide)
      (not_infix_writeMembers h hnumber hv (by simp [Closed]) hclose)

lemma not_infix_writeElements (h : Unwritten P ps) (hnumber : ∀ n, '<' ∉ showNumber n)
    {vs : List (Value N)} {rest : Str} (hvs : Value.AllElements P vs) (hclosed : Closed rest)
    (hrest : ¬ ('<' :: ps) <:+: rest) :
    ¬ ('<' :: ps) <:+: writeElements showNumber vs ++ rest := by
  match vs with
  | [] => exact hrest
  | [v] => exact not_infix_write h hnumber hvs.1 hclosed hrest
  | v :: w :: vs =>
    have hnext := not_infix_writeElements h hnumber hvs.2 hclosed hrest
    rw [writeElements, List.append_assoc]
    apply not_infix_write h hnumber hvs.1 (by simp [Closed])
    exact not_infix_cons (by decide) hnext

lemma not_infix_writeMembers (h : Unwritten P ps) (hnumber : ∀ n, '<' ∉ showNumber n)
    {ms : List (Str × Value N)} {rest : Str} (hms : Value.AllMembers P ms) (hclosed : Closed rest)
    (hrest : ¬ ('<' :: ps) <:+: rest) :
    ¬ ('<' :: ps) <:+: writeMembers showNumber ms ++ rest := by
  match ms with
  | [] => exact hrest
  | [(k, v)] =>
    rw [writeMembers, List.append_assoc]
    apply h.not_infix_string hms.1 (by simp [Closed])
    exact not_infix_cons (by decide) (not_infix_write h hnumber hms.2.1 hclosed hrest)
  | (k, v) :: m :: ms =>
    have hnext := not_infix_writeMembers h hnumber hms.2.2 hclosed hrest
    rw [writeMembers, List.append_assoc, List.cons_append, List.append_assoc]
    apply h.not_infix_string hms.1 (by simp [Closed])
    apply not_infix_cons (by decide)
    apply not_infix_write h hnumber hms.2.1 (by simp [Closed])
    exact not_infix_cons (by decide) hnext

end

lemma not_infix_of_all (h : Unwritten P ps) (hnumber : ∀ n, '<' ∉ showNumber n) {v : Value N}
    (hv : v.All P) : ¬ ('<' :: ps) <:+: write showNumber v := by
  have hfree : ¬ ('<' :: ps) <:+: write showNumber v ++ [] :=
    not_infix_write h hnumber hv (by simp [Closed]) (by simp)
  rwa [List.append_nil] at hfree

end Write

/-- No string of the value has the marker, and no quote and no backslash is in it. -/
lemma unwritten_of_not_infix {ps : Str} (hquote : '"' ∉ ps) (hbackslash : '\\' ∉ ps) :
    Unwritten (fun s => ¬ ('<' :: ps) <:+: s) ps where
  tail h hs := h (List.infix_cons_iff.mpr (.inr hs))
  not_prefix h _ hpre := by
    have hps := prefix_of_prefix_written hquote hbackslash (List.cons_prefix_cons.mp hpre).2
    exact h (List.cons_prefix_cons.mpr ⟨rfl, hps⟩).isInfix

/-- The quote of a leaked token is the end of a string when it is written, and `|` does not
follow. -/
lemma unwritten_quoteToken : Unwritten (fun _ => True) ['|', '"', '|', '>'] where
  tail _ := trivial
  not_prefix {s rest} _ hclosed hpre := by
    have hbar := (List.cons_prefix_cons.mp hpre).2
    cases s with
    | nil => exact absurd (List.cons_prefix_cons.mp hbar).1 (by decide)
    | cons c s =>
      rw [List.flatMap_cons, List.append_assoc] at hbar
      rcases writeChar_cases c with ⟨heq, -, -⟩ | ⟨-, e, heq, -⟩
      · rw [heq, List.singleton_append] at hbar
        have hquote := (List.cons_prefix_cons.mp hbar).2
        cases s with
        | nil =>
          obtain ⟨-, hrest⟩ := List.cons_prefix_cons.mp hquote
          obtain ⟨r, rfl⟩ := hrest
          exact hclosed rfl
        | cons d s =>
          rw [List.flatMap_cons, List.append_assoc] at hquote
          rcases writeChar_cases d with ⟨heq', hd, -⟩ | ⟨-, e, heq', -⟩
          · rw [heq'] at hquote
            exact hd (List.cons_prefix_cons.mp hquote).1.symm
          · rw [heq'] at hquote
            exact absurd (List.cons_prefix_cons.mp hquote).1 (by decide)
      · rw [heq] at hbar
        exact absurd (List.cons_prefix_cons.mp hbar).1 (by decide)

end ModelApi.Gemma
