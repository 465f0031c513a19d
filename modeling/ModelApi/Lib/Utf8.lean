import Mathlib

/-!
# Lossy decoding of UTF-8

`String::from_utf8_lossy`: each maximal part of the bytes that cannot belong to a well-formed text
is replaced by U+FFFD. On well-formed bytes it is the decoding of the text.
-/

namespace ModelApi.Lib

/-- The character the bytes begin with. -/
def firstChar (bytes : List UInt8) : Option Char := (ByteArray.mk bytes.toArray).utf8DecodeChar? 0

/-- A byte that continues a character. -/
def isContinuation (b : UInt8) : Bool := 0x80 ≤ b && b ≤ 0xBF

/-- The second byte of a character of three or four bytes, whose first byte is `b₀`. -/
def isSecond (b₀ b₁ : UInt8) : Bool :=
  (b₀ == 0xE0 && 0xA0 ≤ b₁ && b₁ ≤ 0xBF) || (0xE1 ≤ b₀ && b₀ ≤ 0xEC && isContinuation b₁) ||
    (b₀ == 0xED && 0x80 ≤ b₁ && b₁ ≤ 0x9F) || (0xEE ≤ b₀ && b₀ ≤ 0xEF && isContinuation b₁) ||
    (b₀ == 0xF0 && 0x90 ≤ b₁ && b₁ ≤ 0xBF) || (0xF1 ≤ b₀ && b₀ ≤ 0xF3 && isContinuation b₁) ||
    (b₀ == 0xF4 && 0x80 ≤ b₁ && b₁ ≤ 0x8F)

/-- How many bytes are replaced together, where the bytes do not begin with a character: those that
a character could have begun with, and at least one. -/
def malformedLength : List UInt8 → ℕ
  | b₀ :: b₁ :: rest =>
    if isSecond b₀ b₁ then if 0xF0 ≤ b₀ && rest.head?.any isContinuation then 3 else 2 else 1
  | _ => 1

/-- Decode the bytes behind the first `skip`. -/
def lossyFrom : ℕ → List UInt8 → List Char
  | _, []               => []
  | skip + 1, _ :: rest => lossyFrom skip rest
  | 0, b :: rest        =>
    match firstChar (b :: rest) with
    | some c => c :: lossyFrom (c.utf8Size - 1) rest
    | none   => '\uFFFD' :: lossyFrom (malformedLength (b :: rest) - 1) rest

def fromUtf8Lossy (bytes : List UInt8) : String := String.ofList (lossyFrom 0 bytes)

lemma lossyFrom_append (skipped bytes : List UInt8) :
    lossyFrom skipped.length (skipped ++ bytes) = lossyFrom 0 bytes := by
  induction skipped with
  | nil => rfl
  | cons b skipped ih => exact ih

lemma firstChar_append (c : Char) (bytes : List UInt8) :
    firstChar (String.utf8EncodeChar c ++ bytes) = some c := by
  have happend : ByteArray.mk (String.utf8EncodeChar c ++ bytes).toArray =
      (String.utf8EncodeChar c).toByteArray ++ ByteArray.mk bytes.toArray := by
    ext1
    simp
  rw [firstChar, happend, ByteArray.utf8DecodeChar?_utf8EncodeChar_append]

lemma lossyFrom_flatMap (cs : List Char) :
    lossyFrom 0 (cs.flatMap String.utf8EncodeChar) = cs := by
  induction cs with
  | nil => rfl
  | cons c cs ih =>
    have hfirst := firstChar_append c (cs.flatMap String.utf8EncodeChar)
    have hlen := String.length_utf8EncodeChar c
    rw [List.flatMap_cons]
    cases hbytes : String.utf8EncodeChar c with
    | nil =>
      rw [hbytes] at hlen
      exact absurd hlen.symm c.utf8Size_pos.ne'
    | cons b skipped =>
      rw [hbytes] at hfirst hlen
      have hskip : c.utf8Size - 1 = skipped.length := by
        rw [← hlen, List.length_cons, Nat.add_sub_cancel]
      rw [List.cons_append] at hfirst ⊢
      simp only [lossyFrom, hfirst, hskip]
      rw [lossyFrom_append, ih]

/-- The bytes of a text are those of its characters. -/
lemma fromUTF8?_eq_some {bytes : List UInt8} {s : String} :
    String.fromUTF8? ⟨bytes.toArray⟩ = some s ↔ bytes = s.toList.flatMap String.utf8EncodeChar := by
  have hbytes : bytes = s.toList.flatMap String.utf8EncodeChar ↔
      s.toByteArray = ByteArray.mk bytes.toArray := by
    rw [← String.utf8Encode_toList, List.utf8Encode]
    constructor
    · rintro rfl
      ext1
      simp
    · intro h
      have hlist := congrArg (fun b : ByteArray => b.data.toList) h
      simpa using hlist.symm
  rw [hbytes, String.fromUTF8?]
  constructor
  · intro h
    split at h
    · rw [← Option.some.inj h]
      rfl
    · cases h
  · intro h
    rw [dif_pos (h ▸ s.isValidUTF8)]
    simp only [← h]
    rfl

/-- Well-formed bytes are decoded as they are. -/
lemma fromUtf8Lossy_of_fromUTF8? {bytes : List UInt8} {s : String}
    (h : String.fromUTF8? ⟨bytes.toArray⟩ = some s) : fromUtf8Lossy bytes = s := by
  rw [fromUtf8Lossy, fromUTF8?_eq_some.mp h, lossyFrom_flatMap, String.ofList_toList]

/-! ### Characters and their first bytes -/

/-- How many characters begin in the bytes. -/
def firstBytes (bytes : List UInt8) : ℕ := bytes.countP fun b => b.IsUTF8FirstByte

@[simp] lemma firstBytes_append (bytes bytes' : List UInt8) :
    firstBytes (bytes ++ bytes') = firstBytes bytes + firstBytes bytes' := List.countP_append

lemma firstBytes_cons (b : UInt8) (bytes : List UInt8) :
    firstBytes (b :: bytes) = firstBytes bytes + if b.IsUTF8FirstByte then 1 else 0 := by
  simp [firstBytes, List.countP_cons]

lemma firstBytes_eq_zero {bytes : List UInt8} (h : ∀ b ∈ bytes, ¬ b.IsUTF8FirstByte) :
    firstBytes bytes = 0 := by
  rw [firstBytes, List.countP_eq_zero]
  simpa using h

lemma not_isUTF8FirstByte {b : UInt8} (h : isContinuation b = true) : ¬ b.IsUTF8FirstByte := by
  revert b
  decide +kernel

lemma isContinuation_of_isSecond {b₀ b₁ : UInt8} (h : isSecond b₀ b₁ = true) :
    isContinuation b₁ = true := by
  simp only [isSecond, isContinuation, Bool.or_eq_true, Bool.and_eq_true, beq_iff_eq,
    decide_eq_true_eq, UInt8.le_iff_toNat_le] at h ⊢
  simp at h ⊢
  omega

/-- The first byte of a character, and those that continue it. -/
lemma exists_utf8EncodeChar (c : Char) : ∃ b conts, String.utf8EncodeChar c = b :: conts ∧
    b.IsUTF8FirstByte ∧ ∀ d ∈ conts, ¬ d.IsUTF8FirstByte := by
  have hfirst : ∀ i (hi : i < (String.utf8EncodeChar c).length),
      (String.utf8EncodeChar c)[i].IsUTF8FirstByte ↔ i = 0 :=
    fun i hi => UInt8.isUTF8FirstByte_getElem_utf8EncodeChar
  have hlen := String.length_utf8EncodeChar c
  cases hbytes : String.utf8EncodeChar c with
  | nil =>
    rw [hbytes] at hlen
    exact absurd hlen.symm c.utf8Size_pos.ne'
  | cons b conts =>
    simp only [hbytes] at hfirst
    refine ⟨b, conts, rfl, (hfirst 0 (by simp)).mpr rfl, ?_⟩
    intro d hd hfirst'
    obtain ⟨i, hi, rfl⟩ := List.getElem_of_mem hd
    have := (hfirst (i + 1) (by simpa using hi)).mp hfirst'
    omega

lemma firstBytes_flatMap (cs : List Char) :
    firstBytes (cs.flatMap String.utf8EncodeChar) = cs.length := by
  induction cs with
  | nil => rfl
  | cons c cs ih =>
    obtain ⟨b, conts, hbytes, hb, hconts⟩ := exists_utf8EncodeChar c
    have hone : firstBytes (String.utf8EncodeChar c) = 1 := by
      rw [hbytes, firstBytes_cons, firstBytes_eq_zero hconts, if_pos hb]
    rw [List.flatMap_cons, firstBytes_append, hone, ih, List.length_cons, Nat.add_comm]

lemma exists_of_firstChar {bytes : List UInt8} {c : Char} (h : firstChar bytes = some c) :
    ∃ rest, bytes = String.utf8EncodeChar c ++ rest := by
  obtain ⟨l, hl⟩ := ByteArray.exists_of_utf8DecodeChar?_eq_some h
  have hlist := congrArg (fun b : ByteArray => b.data.toList) hl
  exact ⟨l.data.toList, by simpa using hlist⟩

/-- What is replaced together has no byte that begins a character but for its first one. -/
lemma exists_malformed (b : UInt8) (rest : List UInt8) : ∃ conts rest',
    rest = conts ++ rest' ∧ conts.length = malformedLength (b :: rest) - 1 ∧
      ∀ d ∈ conts, ¬ d.IsUTF8FirstByte := by
  cases rest with
  | nil => exact ⟨[], [], rfl, rfl, List.forall_mem_nil _⟩
  | cons b₁ rest =>
    rw [malformedLength]
    split_ifs with hsecond hthird
    · cases rest with
      | nil => simp at hthird
      | cons b₂ rest =>
        simp only [List.head?_cons, Option.any_some, Bool.and_eq_true] at hthird
        refine ⟨[b₁, b₂], rest, rfl, rfl, ?_⟩
        simp [not_isUTF8FirstByte (isContinuation_of_isSecond hsecond),
          not_isUTF8FirstByte hthird.2]
    · refine ⟨[b₁], rest, rfl, rfl, ?_⟩
      simp [not_isUTF8FirstByte (isContinuation_of_isSecond hsecond)]
    · exact ⟨[], b₁ :: rest, rfl, rfl, List.forall_mem_nil _⟩

/-- Each character that is decoded, or put in the place of malformed bytes, uses up at most one byte
that begins a character, and that at its front. -/
lemma lossyFrom_turn (b : UInt8) (rest : List UInt8) : ∃ c conts rest', rest = conts ++ rest' ∧
    lossyFrom 0 (b :: rest) = c :: lossyFrom 0 rest' ∧ ∀ d ∈ conts, ¬ d.IsUTF8FirstByte := by
  cases hchar : firstChar (b :: rest) with
  | some c =>
    obtain ⟨rest', hbytes⟩ := exists_of_firstChar hchar
    obtain ⟨b', conts, hchar', -, hconts⟩ := exists_utf8EncodeChar c
    have hlen := String.length_utf8EncodeChar c
    rw [hchar', List.cons_append, List.cons.injEq] at hbytes
    rw [hchar', List.length_cons] at hlen
    refine ⟨c, conts, rest', hbytes.2, ?_, hconts⟩
    simp only [lossyFrom, hchar]
    rw [hbytes.2, ← hlen, Nat.add_sub_cancel, lossyFrom_append]
  | none =>
    obtain ⟨conts, rest', hrest, hlen, hconts⟩ := exists_malformed b rest
    refine ⟨'\uFFFD', conts, rest', hrest, ?_, hconts⟩
    simp only [lossyFrom, hchar]
    rw [← hlen, hrest, lossyFrom_append]

/-- The bytes begin with a character's first byte. -/
def Begins (bytes : List UInt8) : Prop := ∀ b ∈ bytes.head?, b.IsUTF8FirstByte

instance (bytes : List UInt8) : Decidable (Begins bytes) :=
  inferInstanceAs (Decidable (∀ b ∈ bytes.head?, b.IsUTF8FirstByte))

/-- Lossy decoding yields a character for each one that begins in the bytes, and one more for bytes
that begin inside a character. -/
lemma firstBytes_le_length_lossyFrom (bytes : List UInt8) :
    firstBytes bytes + (if Begins bytes then 0 else 1) ≤ (lossyFrom 0 bytes).length := by
  induction hn : bytes.length using Nat.strong_induction_on generalizing bytes with
  | _ n ih =>
    cases bytes with
    | nil => simp [firstBytes, Begins]
    | cons b rest =>
      obtain ⟨c, conts, rest', rfl, hlossy, hconts⟩ := lossyFrom_turn b rest
      have hrest := ih rest'.length (by simp [← hn]) rest' rfl
      have hbegins : Begins (b :: (conts ++ rest')) ↔ b.IsUTF8FirstByte := by simp [Begins]
      rw [hlossy, List.length_cons, firstBytes_cons, firstBytes_append, firstBytes_eq_zero hconts]
      simp only [hbegins]
      split_ifs at hrest ⊢ <;> omega

/-- A text that is cut where a character begins is cut into two texts. -/
lemma exists_cut_of_begins {cs : List Char} {front back : List UInt8} (hback : Begins back)
    (h : front ++ back = cs.flatMap String.utf8EncodeChar) :
    ∃ cs₁ cs₂ : List Char, front = cs₁.flatMap String.utf8EncodeChar ∧
      back = cs₂.flatMap String.utf8EncodeChar := by
  induction cs generalizing front with
  | nil =>
    obtain ⟨rfl, rfl⟩ := List.append_eq_nil_iff.mp h
    exact ⟨[], [], rfl, rfl⟩
  | cons c cs ih =>
    rw [List.flatMap_cons] at h
    rcases List.append_eq_append_iff.mp h with ⟨inside, hchar, hback'⟩ | ⟨front', hfront, hcs⟩
    · obtain ⟨b, conts, hbytes, -, hconts⟩ := exists_utf8EncodeChar c
      cases front with
      | nil => exact ⟨[], c :: cs, rfl, by rw [hback', List.flatMap_cons, hchar]; rfl⟩
      | cons b' front =>
        cases inside with
        | nil => exact ⟨[c], cs, by simpa using hchar.symm, hback'⟩
        | cons d inside =>
          rw [hbytes, List.cons_append, List.cons.injEq] at hchar
          rw [hback'] at hback
          exact absurd (hback d rfl) (hconts d (by simp [hchar.2]))
    · obtain ⟨cs₁, cs₂, rfl, rfl⟩ := ih hcs.symm
      exact ⟨c :: cs₁, cs₂, hfront, rfl⟩

end ModelApi.Lib
