import ModelApi.Gemma.Controls
import ModelApi.Gemma.Rendering

/-!
# Quoted keys

`quote_bare_keys` puts quotes around keys and turns the separators behind them into colons. It does
nothing else, and nothing more when it is run again.
-/

namespace ModelApi.Gemma

open Lib Lib.Str

/-- What stands behind the white space. -/
def behind (s : Str) : Option Char := (s.dropWhile isAsciiWhitespace).head?

/-- The character is copied, and no key may stand behind it. -/
structure Other (prev : Bool) (c : Char) : Prop where
  ne_quote : c ≠ '"'
  not_open : ¬ (c = '{' ∨ c = ',')
  not_space : ¬ isAsciiWhitespace c = true
  not_ident : ¬ (prev = true ∧ isIdentStart c = true)

/-- How the scanner reads a text, and what it writes: one constructor for each branch. -/
inductive Quotes : Bool → Bool → Str → Str → Prop where
  | nil (inString prev : Bool) : Quotes inString prev [] []
  | inString {prev : Bool} {c : Char} {s t : Str} (hc : c ≠ '\\' ∨ s = [])
      (h : Quotes (c ≠ '"') prev s t) : Quotes true prev (c :: s) (c :: t)
  | escape {prev : Bool} {c : Char} {s t : Str} (h : Quotes true prev s t) :
      Quotes true prev ('\\' :: c :: s) ('\\' :: c :: t)
  | quote {prev : Bool} {s t : Str} (h : Quotes true false s t) :
      Quotes false prev ('"' :: s) ('"' :: t)
  | opens {prev : Bool} {c : Char} {s t : Str} (hc : c = '{' ∨ c = ',')
      (h : Quotes false true s t) : Quotes false prev (c :: s) (c :: t)
  | space {prev : Bool} {c : Char} {s t : Str} (hc : isAsciiWhitespace c = true)
      (h : Quotes false prev s t) : Quotes false prev (c :: s) (c :: t)
  | other {prev : Bool} {c : Char} {s t : Str} (hc : Other prev c) (h : Quotes false false s t) :
      Quotes false prev (c :: s) (c :: t)
  /-- no separator follows -/
  | bare {ident s t : Str} (hident : IsIdent ident) (hs : ∀ c ∈ s.head?, isIdentByte c = false)
      (hsep : behind s ≠ some ':' ∧ behind s ≠ some '=') (h : Quotes false false s t) :
      Quotes false true (ident ++ s) (ident ++ t)
  | key {ident s t : Str} (hident : IsIdent ident) (hs : ∀ c ∈ s.head?, isIdentByte c = false)
      (hsep : behind s = some ':') (h : Quotes false false s t) :
      Quotes false true (ident ++ s) ('"' :: (ident ++ '"' :: t))
  | keyEq {ident ws s t : Str} (hident : IsIdent ident)
      (hws : ∀ c ∈ ws, isAsciiWhitespace c = true) (h : Quotes false false s t) :
      Quotes false true (ident ++ (ws ++ '=' :: s)) ('"' :: (ident ++ '"' :: (ws ++ ':' :: t)))

/-! ### The judgement and the function -/

lemma behind_append {ws s : Str} (hws : ∀ c ∈ ws, isAsciiWhitespace c = true) :
    behind (ws ++ s) = behind s := by
  rw [behind, behind, List.dropWhile_append_of_pos hws]

lemma behind_cons {c : Char} {s : Str} (hc : ¬ isAsciiWhitespace c = true) :
    behind (c :: s) = some c := by
  rw [behind, List.dropWhile_cons_of_neg hc]
  rfl

lemma not_isAsciiWhitespace_of_open {c : Char} (hc : c = '{' ∨ c = ',') :
    ¬ isAsciiWhitespace c = true := by
  rcases hc with rfl | rfl <;> simp [isAsciiWhitespace]

lemma isIdentByte_of_isAsciiWhitespace {c : Char} (h : isAsciiWhitespace c = true) :
    isIdentByte c = false := by
  simp only [isAsciiWhitespace, Bool.or_eq_true, beq_iff_eq] at h
  rcases h with (((rfl | rfl) | rfl) | rfl) | rfl <;> rfl

/-- What stands behind the white space ends an identifier in front of it. -/
lemma head_of_behind {s : Str} {sep : Char} (h : behind s = some sep)
    (hsep : isIdentByte sep = false) : ∀ c ∈ s.head?, isIdentByte c = false := by
  intro c hc
  obtain ⟨s, rfl⟩ := List.head?_eq_some_iff.mp hc
  by_cases hspace : isAsciiWhitespace c = true
  · exact isIdentByte_of_isAsciiWhitespace hspace
  · rw [behind, List.dropWhile_cons_of_neg hspace] at h
    cases h
    exact hsep

/-- What the scanner does with an identifier where a key may stand. -/
lemma quoteKeys_ident_append {ident s : Str} (hident : IsIdent ident)
    (hs : ∀ c ∈ s.head?, isIdentByte c = false) :
    quoteKeys false true (ident ++ s) =
      if behind s = some '=' then
        '"' :: (ident ++ '"' :: (s.takeWhile isAsciiWhitespace ++
          ':' :: quoteKeys false false (s.dropWhile isAsciiWhitespace).tail))
      else if behind s = some ':' then '"' :: (ident ++ '"' :: quoteKeys false false s)
      else ident ++ quoteKeys false false s := by
  obtain ⟨⟨b, hb, hstart⟩, hident⟩ := hident
  obtain ⟨ident, rfl⟩ := List.head?_eq_some_iff.mp hb
  obtain ⟨htake, hdrop⟩ := span_append (List.forall_mem_cons.mp hident).2 hs
  rw [List.cons_append, quoteKeys_ident hstart, htake, hdrop]
  simp only [List.cons_append, List.append_assoc]
  rfl

/-- The scanner meets an identifier where a key may stand. -/
lemma quotes_ident {ident s : Str} (hident : IsIdent ident)
    (hs : ∀ c ∈ s.head?, isIdentByte c = false)
    (ih : ∀ rest : Str, rest.length ≤ s.length →
      Quotes false false rest (quoteKeys false false rest)) :
    Quotes false true (ident ++ s) (quoteKeys false true (ident ++ s)) := by
  rw [quoteKeys_ident_append hident hs]
  split_ifs with heq hcolon
  · have hws : ∀ c ∈ s.takeWhile isAsciiWhitespace, isAsciiWhitespace c = true :=
      fun c hc => List.mem_takeWhile_imp hc
    obtain ⟨rest, hrest⟩ := List.head?_eq_some_iff.mp heq
    have hsplit : s = s.takeWhile isAsciiWhitespace ++ '=' :: rest := by
      rw [← hrest, List.takeWhile_append_dropWhile]
    have hle : rest.length ≤ s.length := by
      have hlen := congrArg List.length hsplit
      rw [List.length_append, List.length_cons] at hlen
      omega
    have hquotes := Quotes.keyEq hident hws (ih rest hle)
    rw [← hsplit] at hquotes
    rwa [hrest, List.tail_cons]
  · exact .key hident hs hcolon (ih s le_rfl)
  · exact .bare hident hs ⟨hcolon, heq⟩ (ih s le_rfl)

/-- The identifier that a text begins with. -/
lemma exists_ident {b : Char} (hb : isIdentStart b = true) (s : Str) :
    ∃ ident rest, b :: s = ident ++ rest ∧ IsIdent ident ∧
      (∀ c ∈ rest.head?, isIdentByte c = false) ∧ rest.length ≤ s.length := by
  refine ⟨b :: s.takeWhile isIdentByte, s.dropWhile isIdentByte, ?_, ⟨⟨b, rfl, hb⟩, ?_⟩, ?_,
    List.length_dropWhile_le _ _⟩
  · rw [List.cons_append, List.takeWhile_append_dropWhile]
  · refine List.forall_mem_cons.mpr ⟨isIdentByte_of_isIdentStart hb, ?_⟩
    exact fun c hc => List.mem_takeWhile_imp hc
  · intro c hc
    have hnot := List.head?_dropWhile_not isIdentByte s
    rw [hc] at hnot
    simpa using hnot

lemma quotes_quoteKeys (inString prev : Bool) (s : Str) :
    Quotes inString prev s (quoteKeys inString prev s) := by
  induction hn : s.length using Nat.strong_induction_on generalizing inString prev s with
  | _ n ih =>
    cases s with
    | nil =>
      rw [quoteKeys_nil]
      exact .nil inString prev
    | cons b s =>
      have hs : ∀ inString prev, Quotes inString prev s (quoteKeys inString prev s) :=
        fun _ _ => ih s.length (by simp [← hn]) _ _ s rfl
      cases inString with
      | true =>
        by_cases hb : b ≠ '\\' ∨ s = []
        · rw [quoteKeys_inString hb]
          exact .inString hb (hs _ _)
        · obtain ⟨hb, hne⟩ := not_or.mp hb
          obtain rfl := not_ne_iff.mp hb
          obtain ⟨c, s, rfl⟩ := List.exists_cons_of_ne_nil hne
          rw [quoteKeys_escape]
          exact .escape (ih s.length (by simp [← hn]) _ _ s rfl)
      | false =>
        by_cases hq : b = '"'
        · subst hq
          rw [quoteKeys_quote]
          exact .quote (hs _ _)
        · by_cases hopen : b = '{' ∨ b = ','
          · rw [quoteKeys_open hopen]
            exact .opens hopen (hs _ _)
          · by_cases hws : isAsciiWhitespace b = true
            · rw [quoteKeys_space hws]
              exact .space hws (hs _ _)
            · by_cases hident : prev = true ∧ isIdentStart b = true
              · obtain ⟨rfl, hstart⟩ := hident
                obtain ⟨ident, rest, hsplit, hident, hrest, hle⟩ := exists_ident hstart s
                rw [hsplit]
                apply quotes_ident hident hrest
                intro rest' hrest'
                have hlt : rest'.length < n := by
                  rw [← hn, List.length_cons]
                  omega
                exact ih rest'.length hlt _ _ rest' rfl
              · rw [quoteKeys_other hq hopen hws hident]
                exact .other ⟨hq, hopen, hws, hident⟩ (hs _ _)

lemma Quotes.eq {inString prev : Bool} {s t : Str} (h : Quotes inString prev s t) :
    quoteKeys inString prev s = t := by
  induction h with
  | nil => simp
  | inString hc h ih => rw [quoteKeys_inString hc, ih]
  | escape h ih => rw [quoteKeys_escape, ih]
  | quote h ih => rw [quoteKeys_quote, ih]
  | opens hc h ih => rw [quoteKeys_open hc, ih]
  | space hc h ih => rw [quoteKeys_space hc, ih]
  | other hc h ih => rw [quoteKeys_other hc.ne_quote hc.not_open hc.not_space hc.not_ident, ih]
  | bare hident hs hsep h ih =>
    rw [quoteKeys_ident_append hident hs, if_neg hsep.2, if_neg hsep.1, ih]
  | key hident hs hsep h ih =>
    rw [quoteKeys_ident_append hident hs, if_neg (by simp [hsep]), if_pos hsep, ih]
  | @keyEq ident ws s t hident hws h ih =>
    have hsep : behind (ws ++ '=' :: s) = some '=' := behind_append hws
    obtain ⟨htake, hdrop⟩ := span_append (s := '=' :: s) hws (by simp; decide)
    rw [quoteKeys_ident_append hident (head_of_behind hsep rfl), if_pos hsep, htake, hdrop,
      List.tail_cons, ih]

/-! ### Another pass -/

lemma plain_of_isIdent {ident : Str} (h : IsIdent ident) : ∀ c ∈ ident, Plain c := by
  intro c hc
  obtain ⟨hquote, hbackslash, -⟩ := plain_of_isIdentByte (h.2 c hc)
  exact ⟨hquote, hbackslash⟩

/-- A key between quotes is passed over. -/
lemma Quotes.quotedKey {prev : Bool} {ident s t : Str} (hident : ∀ c ∈ ident, Plain c)
    (h : Quotes false false s t) :
    Quotes false prev ('"' :: (ident ++ '"' :: s)) ('"' :: (ident ++ '"' :: t)) := by
  apply Quotes.quote
  induction ident with
  | nil => exact .inString (.inl (by decide)) h
  | cons c ident ih =>
    obtain ⟨hc, hident⟩ := List.forall_mem_cons.mp hident
    refine .inString (.inl hc.2) ?_
    rw [decide_eq_true hc.1]
    exact ih hident

lemma Quotes.spaces {prev : Bool} {ws s t : Str} (hws : ∀ c ∈ ws, isAsciiWhitespace c = true)
    (h : Quotes false prev s t) : Quotes false prev (ws ++ s) (ws ++ t) := by
  induction ws with
  | nil => exact h
  | cons c ws ih =>
    obtain ⟨hc, hws⟩ := List.forall_mem_cons.mp hws
    exact .space hc (ih hws)

/-- Where no key may stand, the first byte is copied, and so is the first one behind the white
space. -/
lemma Quotes.head {inString prev : Bool} {s t : Str} (h : Quotes inString prev s t)
    (hin : inString = false) (hprev : prev = false) : t.head? = s.head? ∧ behind t = behind s := by
  induction h with
  | nil => exact ⟨rfl, rfl⟩
  | inString | escape => cases hin
  | bare | key | keyEq => cases hprev
  | quote => exact ⟨rfl, rfl⟩
  | opens hc =>
    have hspace := not_isAsciiWhitespace_of_open hc
    exact ⟨rfl, by rw [behind_cons hspace, behind_cons hspace]⟩
  | space hc h ih =>
    refine ⟨rfl, ?_⟩
    rw [behind, List.dropWhile_cons_of_pos hc, behind, List.dropWhile_cons_of_pos hc]
    exact (ih hin hprev).2
  | other hc => exact ⟨rfl, by rw [behind_cons hc.not_space, behind_cons hc.not_space]⟩

/-- What the scanner has written it leaves alone. -/
lemma Quotes.again {inString prev : Bool} {s t : Str} (h : Quotes inString prev s t)
    (hprev : inString = true → prev = false) : Quotes inString prev t t := by
  induction h with
  | nil inString prev => exact .nil inString prev
  | inString hc h ih =>
    refine .inString (hc.imp_right ?_) (ih fun _ => hprev rfl)
    rintro rfl
    rw [← h.eq, quoteKeys_nil]
  | escape h ih => exact .escape (ih hprev)
  | quote h ih => exact .quote (ih fun _ => rfl)
  | opens hc h ih => exact .opens hc (ih nofun)
  | space hc h ih => exact .space hc (ih nofun)
  | other hc h ih => exact .other hc (ih nofun)
  | bare hident hs hsep h ih =>
    obtain ⟨hhead, hbehind⟩ := h.head rfl rfl
    exact .bare hident (hhead ▸ hs) (hbehind ▸ hsep) (ih nofun)
  | key hident hs hsep h ih =>
    exact .quotedKey (plain_of_isIdent hident) (ih nofun)
  | keyEq hident hws h ih =>
    have hcolon : Other false ':' := ⟨by decide, by decide, by decide, by decide⟩
    exact .quotedKey (plain_of_isIdent hident)
      (.spaces hws (.other hcolon (ih nofun)))

/-! ### What is kept -/

/-- Deleting the quotes around identifiers, and turning colons behind them back, gives the text. -/
inductive Unquotes : Str → Str → Prop where
  | nil : Unquotes [] []
  | byte (c : Char) {t s : Str} (h : Unquotes t s) : Unquotes (c :: t) (c :: s)
  | key {ident t s : Str} (hident : IsIdent ident) (h : Unquotes t s) :
      Unquotes ('"' :: (ident ++ '"' :: t)) (ident ++ s)
  | keyEq {ident ws t s : Str} (hident : IsIdent ident)
      (hws : ∀ c ∈ ws, isAsciiWhitespace c = true) (h : Unquotes t s) :
      Unquotes ('"' :: (ident ++ '"' :: (ws ++ ':' :: t))) (ident ++ (ws ++ '=' :: s))

lemma Unquotes.append (w : Str) {t s : Str} (h : Unquotes t s) : Unquotes (w ++ t) (w ++ s) := by
  induction w with
  | nil => exact h
  | cons c w ih => exact .byte c ih

lemma Quotes.unquotes {inString prev : Bool} {s t : Str} (h : Quotes inString prev s t) :
    Unquotes t s := by
  induction h with
  | nil => exact .nil
  | inString _ _ ih | quote _ ih | opens _ _ ih | space _ _ ih | other _ _ ih => exact .byte _ ih
  | escape _ ih => exact .byte _ (.byte _ ih)
  | bare _ _ _ _ ih => exact ih.append _
  | key hident _ _ _ ih => exact .key hident ih
  | keyEq hident hws _ ih => exact .keyEq hident hws ih

lemma Unquotes.ascii {t s : Str} (h : Unquotes t s) (hs : ∀ c ∈ s, isAscii c) :
    ∀ c ∈ t, isAscii c := by
  have hquote : isAscii '"' := by decide
  have hcolon : isAscii ':' := by decide
  induction h with
  | nil => exact hs
  | byte c h ih =>
    simp only [List.forall_mem_cons] at hs ⊢
    exact ⟨hs.1, ih hs.2⟩
  | key hident h ih =>
    simp only [List.forall_mem_cons, List.forall_mem_append] at hs ⊢
    exact ⟨hquote, hs.1, hquote, ih hs.2⟩
  | keyEq hident hws h ih =>
    simp only [List.forall_mem_cons, List.forall_mem_append] at hs ⊢
    exact ⟨hquote, hs.1, hquote, hs.2.1, hcolon, ih hs.2.2.2⟩

lemma literalsFrom_outside_cons {c : Char} {lit s : Str} (hc : c ≠ '"') :
    literalsFrom .outside lit (c :: s) = literalsFrom .outside lit s :=
  literalsFrom_outside_append (w := [c]) (by simpa using hc)

/-- A key between quotes is a literal. -/
lemma literalsFrom_quotedKey {ident lit s : Str} (hident : IsIdent ident) :
    literalsFrom .outside lit ('"' :: (ident ++ '"' :: s)) =
      ('"' :: (ident ++ ['"'])) :: literalsFrom .outside lit s := by
  rw [literalsFrom, next_quote_outside, literalsFrom_plain (plain_of_isIdent hident), Lib.literals,
    literalsFrom_outside lit]
  rfl

lemma literalsFrom_ident {ident lit s : Str} (hident : IsIdent ident) :
    literalsFrom .outside lit (ident ++ s) = literalsFrom .outside lit s :=
  literalsFrom_outside_append fun c hc => (plain_of_isIdent hident c hc).1

lemma literalsFrom_spaces {ws lit s : Str} (hws : ∀ c ∈ ws, isAsciiWhitespace c = true) :
    literalsFrom .outside lit (ws ++ s) = literalsFrom .outside lit s :=
  literalsFrom_outside_append fun c hc => (ne_of_isAsciiWhitespace (hws c hc)).1

/-- The string literals stay, and the quoted keys come in between. -/
lemma Quotes.literals_sublist {inString prev : Bool} {s t : Str} (h : Quotes inString prev s t)
    (lit : Str) :
    (literalsFrom (stateOf inString) lit s).Sublist (literalsFrom (stateOf inString) lit t) := by
  induction h generalizing lit with
  | nil => exact List.Sublist.refl _
  | @inString prev c s t hc h ih =>
    by_cases hquote : c = '"'
    · subst hquote
      exact (ih []).cons_cons _
    · rw [decide_eq_true hquote] at ih
      by_cases hbackslash : c = '\\'
      · obtain rfl := hc.resolve_left (not_not.mpr hbackslash)
        rw [← h.eq, quoteKeys_nil]
      · simp only [stateOf_true, literalsFrom, if_neg hquote,
          next_inString ⟨hquote, hbackslash⟩]
        exact ih _
  | escape h ih => exact ih _
  | quote h ih => exact ih _
  | @opens prev c s t hc h ih =>
    have hquote : c ≠ '"' := by
      rintro rfl
      simp at hc
    rw [stateOf_false, literalsFrom_outside_cons hquote, literalsFrom_outside_cons hquote]
    exact ih lit
  | space hc h ih =>
    have hquote := (ne_of_isAsciiWhitespace hc).1
    rw [stateOf_false, literalsFrom_outside_cons hquote, literalsFrom_outside_cons hquote]
    exact ih lit
  | other hc h ih =>
    rw [stateOf_false, literalsFrom_outside_cons hc.ne_quote,
      literalsFrom_outside_cons hc.ne_quote]
    exact ih lit
  | bare hident hs hsep h ih =>
    rw [stateOf_false, literalsFrom_ident hident, literalsFrom_ident hident]
    exact ih lit
  | key hident hs hsep h ih =>
    rw [stateOf_false, literalsFrom_ident hident, literalsFrom_quotedKey hident]
    exact (ih lit).cons _
  | keyEq hident hws h ih =>
    rw [stateOf_false, literalsFrom_ident hident, literalsFrom_quotedKey hident,
      literalsFrom_spaces hws, literalsFrom_spaces hws, literalsFrom_outside_cons (by decide),
      literalsFrom_outside_cons (by decide)]
    exact (ih lit).cons _

/-- Another pass changes nothing, the string literals stay in their order, and deleting the quotes
around some identifiers and turning some colons behind them back gives the text. -/
theorem quoteBareKeys_stable {x : Str} (hx : ∀ c ∈ x, isAscii c) :
    ∃ y, quoteBareKeys x = .ok y ∧ quoteBareKeys y = .ok y ∧
      (literals x).Sublist (literals y) ∧ Unquotes y x := by
  have hquotes := quotes_quoteKeys false false x
  refine ⟨quoteKeys false false x, ?_, ?_, hquotes.literals_sublist [], hquotes.unquotes⟩
  · rw [quoteBareKeys_eq, bytes_of_isAscii hx]
  · rw [quoteBareKeys_eq, bytes_of_isAscii (hquotes.unquotes.ascii hx), (hquotes.again nofun).eq]

/-- A key with an equals sign, another one behind it, and a string that is not closed. -/
def brokenBody : Str := "\x7ba =[1,b:\"c=\\\", \x7bd:".toList

theorem quoteBareKeys_stable_demo :
    ∃ y, quoteBareKeys brokenBody = .ok y ∧ quoteBareKeys y = .ok y ∧
      (literals brokenBody).Sublist (literals y) ∧ Unquotes y brokenBody :=
  quoteBareKeys_stable (List.forall_iff_forall_mem.mp (by decide))

end ModelApi.Gemma
