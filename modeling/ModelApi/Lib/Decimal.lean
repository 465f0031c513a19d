import Mathlib

/-!
# Numbers read from text

A number of a bounded type is read digit by digit, and refused as soon as it leaves its type. Its
own text is read back.
-/

namespace ModelApi.Lib

/-- Why a text is no number of a type. -/
inductive NoNumber where
  | empty
  | invalidDigit
  | posOverflow
  | negOverflow
  deriving DecidableEq, Repr

def NoNumber.text : NoNumber → String
  | .empty        => "cannot parse integer from empty string"
  | .invalidDigit => "invalid digit found in string"
  | .posOverflow  => "number too large to fit in target type"
  | .negOverflow  => "number too small to fit in target type"

section Reading

variable (lo hi : ℤ)

/-- The digits behind the sign, `acc` being the number read so far. -/
def readDigits (sign : ℤ) : List Char → ℕ → Except NoNumber ℤ
  | [], acc      => .ok (sign * acc)
  | c :: cs, acc =>
    if c.isDigit then
      let acc := 10 * acc + (c.toNat - '0'.toNat)
      if lo ≤ sign * acc ∧ sign * acc ≤ hi then readDigits sign cs acc
      else .error (if 0 < sign then .posOverflow else .negOverflow)
    else .error .invalidDigit

/-- A number from `lo` to `hi`. Only types with negative numbers have a minus sign. -/
def readNumber (text : List Char) : Except NoNumber ℤ :=
  match text with
  | []        => .error .empty
  | ['+']     => .error .invalidDigit
  | ['-']     => .error .invalidDigit
  | '+' :: cs => readDigits lo hi 1 cs 0
  | '-' :: cs => if lo < 0 then readDigits lo hi (-1) cs 0 else .error .invalidDigit
  | cs        => readDigits lo hi 1 cs 0

end Reading

variable {lo hi : ℤ}

lemma le_ofDigitChars (cs : List Char) (acc : ℕ) : acc ≤ Nat.ofDigitChars 10 cs acc := by
  induction cs generalizing acc with
  | nil => simp
  | cons c cs ih =>
    rw [Nat.ofDigitChars_cons]
    exact le_trans (by omega) (ih _)

/-- The digits of a number that fits are read as this number. -/
lemma readDigits_eq {sign : ℤ} (hsign : sign = 1 ∨ sign = -1) (hlo : lo ≤ 0) (hhi : 0 ≤ hi)
    {cs : List Char} (hdigits : ∀ c ∈ cs, c.isDigit = true) {acc : ℕ}
    (hle : lo ≤ sign * Nat.ofDigitChars 10 cs acc) (hge : sign * Nat.ofDigitChars 10 cs acc ≤ hi) :
    readDigits lo hi sign cs acc = .ok (sign * Nat.ofDigitChars 10 cs acc) := by
  induction cs generalizing acc with
  | nil => simp [readDigits]
  | cons c cs ih =>
    obtain ⟨hc, hcs⟩ := List.forall_mem_cons.mp hdigits
    rw [Nat.ofDigitChars_cons] at hle hge ⊢
    have hmono := le_ofDigitChars cs (10 * acc + (c.toNat - '0'.toNat))
    have hfits : lo ≤ sign * (10 * acc + (c.toNat - '0'.toNat) : ℕ) ∧
        sign * (10 * acc + (c.toNat - '0'.toNat) : ℕ) ≤ hi := by
      rcases hsign with rfl | rfl <;> omega
    rw [readDigits, if_pos hc]
    simp only [if_pos hfits]
    exact ih hcs hle hge

lemma readNumber_digits {cs : List Char} (hne : cs ≠ []) (hdigits : ∀ c ∈ cs, c.isDigit = true) :
    readNumber lo hi cs = readDigits lo hi 1 cs 0 := by
  obtain ⟨c, cs, rfl⟩ := List.exists_cons_of_ne_nil hne
  have hc := hdigits c List.mem_cons_self
  have hplus : c ≠ '+' := by
    rintro rfl
    simp at hc
  have hminus : c ≠ '-' := by
    rintro rfl
    simp at hc
  simp [readNumber, hplus, hminus]

lemma readNumber_minus {cs : List Char} (hne : cs ≠ []) (hlo : lo < 0) :
    readNumber lo hi ('-' :: cs) = readDigits lo hi (-1) cs 0 := by
  obtain ⟨c, cs, rfl⟩ := List.exists_cons_of_ne_nil hne
  simp [readNumber, hlo]

lemma toDigits_ne_nil (n : ℕ) : Nat.toDigits 10 n ≠ [] :=
  List.ne_nil_of_length_pos Nat.length_toDigits_pos

lemma isDigit_of_mem {n : ℕ} : ∀ c ∈ Nat.toDigits 10 n, c.isDigit = true := fun _ hc =>
  Nat.isDigit_of_mem_toDigits (by decide) (by decide) hc

lemma readDigits_toDigits {sign : ℤ} (hsign : sign = 1 ∨ sign = -1) (hlo : lo ≤ 0) (hhi : 0 ≤ hi)
    {m : ℕ} (hle : lo ≤ sign * m) (hge : sign * m ≤ hi) :
    readDigits lo hi sign (Nat.toDigits 10 m) 0 = .ok (sign * m) := by
  have hvalue : Nat.ofDigitChars 10 (Nat.toDigits 10 m) 0 = m := Nat.ofDigitChars_ten_toDigits
  rw [readDigits_eq hsign hlo hhi isDigit_of_mem (by rwa [hvalue]) (by rwa [hvalue]), hvalue]

/-- The text of a number that fits is read as this number. -/
theorem readNumber_toString {n : ℤ} (hlo : lo ≤ 0) (hhi : 0 ≤ hi) (hle : lo ≤ n) (hge : n ≤ hi) :
    readNumber lo hi (toString n).toList = .ok n := by
  cases n with
  | ofNat m =>
    have htext : (toString (Int.ofNat m)).toList = Nat.toDigits 10 m := by
      simp [toString, Int.repr]
    have hone : (1 : ℤ) * m = Int.ofNat m := by simp
    rw [htext, readNumber_digits (toDigits_ne_nil m) isDigit_of_mem,
      readDigits_toDigits (.inl rfl) hlo hhi (by rwa [hone]) (by rwa [hone]), hone]
  | negSucc m =>
    have htext : (toString (Int.negSucc m)).toList = '-' :: Nat.toDigits 10 (m + 1) := by
      simp [toString, Int.repr]
    have hneg : (-1 : ℤ) * (m + 1 : ℕ) = Int.negSucc m := by omega
    have hlo' : lo < 0 := lt_of_le_of_lt hle (Int.negSucc_lt_zero m)
    rw [htext, readNumber_minus (toDigits_ne_nil (m + 1)) hlo',
      readDigits_toDigits (.inr rfl) hlo hhi (by rwa [hneg]) (by rwa [hneg]), hneg]

end ModelApi.Lib
