import ModelApi.Lib.Loop

/-!
# Texts addressed by bytes

A text is a list of characters, addressed by the byte offsets of its UTF-8 encoding. A slice fails
unless its ends are in order, in range and between characters. A byte is carried as the character it
is cast to, so that the bytes of an ASCII text are the text.
-/

namespace ModelApi.Lib

/-- The bytes of a character. -/
def encodeChar (c : Char) : List Char := (String.utf8EncodeChar c).map Char.ofUInt8

def isAscii (c : Char) : Prop := c.toNat < 128

instance (c : Char) : Decidable (isAscii c) := Nat.decLt _ _

/-- `char::is_whitespace`: the Unicode property `White_Space`. -/
def isWhitespace (c : Char) : Bool :=
  let n := c.toNat
  (9 ≤ n && n ≤ 13) || n == 0x20 || n == 0x85 || n == 0xA0 || n == 0x1680 ||
    (0x2000 ≤ n && n ≤ 0x200A) || n == 0x2028 || n == 0x2029 || n == 0x202F || n == 0x205F ||
    n == 0x3000

def isAsciiWhitespace (c : Char) : Bool :=
  c == ' ' || c == '\t' || c == '\n' || c == '\r' || c == Char.ofNat 12

def isAsciiAlphabetic (c : Char) : Bool := ('A' ≤ c && c ≤ 'Z') || ('a' ≤ c && c ≤ 'z')

def isAsciiAlphanumeric (c : Char) : Bool := isAsciiAlphabetic c || ('0' ≤ c && c ≤ '9')

abbrev Str := List Char

namespace Str

/-- The bytes of a text. -/
def bytes (s : Str) : Str := s.flatMap encodeChar

/-- The length of a text in bytes. -/
def len (s : Str) : ℕ := s.bytes.length

/-- The byte at an offset. -/
def byteAt (bytes : Str) (i : ℕ) : Except Fault Char :=
  match bytes[i]? with
  | some b => .ok b
  | none   => .error (.index i bytes.length)

/-- Cut a text at a byte offset, which has to lie between two characters. -/
def splitAt? : Str → ℕ → Option (Str × Str)
  | s, 0          => some ([], s)
  | [], _ + 1     => none
  | c :: s, n + 1 =>
    if (encodeChar c).length ≤ n + 1 then
      (splitAt? s (n + 1 - (encodeChar c).length)).map fun p => (c :: p.1, p.2)
    else none

/-- The text between two byte offsets. -/
def slice (s : Str) (start stop : ℕ) : Except Fault Str :=
  -- an offset behind `stop` is out of range in what lies in front of it
  match s.splitAt? stop >>= fun p => splitAt? p.1 start with
  | some (_, part) => .ok part
  | none           => .error (.slice start stop s.len)

/-- The text from a byte offset on. -/
def sliceFrom (s : Str) (start : ℕ) : Except Fault Str := s.slice start s.len

/-- The byte offset of the first occurrence. -/
def find (pat : Str) : Str → Option ℕ
  | []     => if pat = [] then some 0 else none
  | c :: s => if pat <+: c :: s then some 0 else (find pat s).map ((encodeChar c).length + ·)

/-- What stands in front of and behind the first occurrence. -/
def splitFirst (pat : Str) : Str → Option (Str × Str)
  | []     => if pat = [] then some ([], []) else none
  | c :: s =>
    if pat <+: c :: s then some ([], (c :: s).drop pat.length)
    else (splitFirst pat s).map fun p => (c :: p.1, p.2)

def contains (s pat : Str) : Bool := (find pat s).isSome

/-- Replace the occurrences of a nonempty text, from left to right; the first `skip` characters
belong to an occurrence that has been replaced. -/
def replaceSkip (pat new : Str) : ℕ → Str → Str
  | _, []            => []
  | skip + 1, _ :: s => replaceSkip pat new skip s
  | 0, c :: s        =>
    if pat <+: c :: s then new ++ replaceSkip pat new (pat.length - 1) s
    else c :: replaceSkip pat new 0 s

def replace (s pat new : Str) : Str := replaceSkip pat new 0 s

def trimStart (s : Str) : Str := s.dropWhile isWhitespace

def trimEnd (s : Str) : Str := s.rdropWhile isWhitespace

def trim (s : Str) : Str := s.trimStart.trimEnd

def stripPrefix (s pat : Str) : Option Str := if pat <+: s then some (s.drop pat.length) else none

def stripSuffix (s pat : Str) : Option Str :=
  if pat <:+ s then some (s.take (s.length - pat.length)) else none

/-! ### Bytes -/

lemma encodeChar_of_isAscii {c : Char} (h : isAscii c) : encodeChar c = [c] := by
  have hle : c.val.toNat ≤ 0x7f := Nat.lt_succ_iff.mp h
  have hbyte : Char.ofUInt8 (UInt8.ofNat c.val.toNat) = c := by
    apply Char.ext
    apply UInt32.toNat_inj.mp
    change (UInt8.ofNat c.val.toNat).toUInt32.toNat = c.val.toNat
    rw [UInt8.toNat_toUInt32, UInt8.toNat_ofNat']
    omega
  simp only [encodeChar, String.utf8EncodeChar, hle, if_true, List.map_cons, List.map_nil, hbyte]

lemma toNat_ofUInt8_ofNat (n : ℕ) : (Char.ofUInt8 (UInt8.ofNat n)).toNat = n % 256 := by
  change (UInt8.ofNat n).toUInt32.toNat = n % 256
  rw [UInt8.toNat_toUInt32, UInt8.toNat_ofNat']

/-- A character that is not ASCII is encoded by a leading byte, from `0xC0` on, and continuation
bytes between `0x80` and `0xC0`. -/
lemma encodeChar_of_not_isAscii {c : Char} (h : ¬ isAscii c) :
    ∃ lead conts, encodeChar c = lead :: conts ∧ (0xC0 ≤ lead.toNat ∧ lead.toNat < 0x100) ∧
      ∀ b ∈ conts, 0x80 ≤ b.toNat ∧ b.toNat < 0xC0 := by
  have hgt : ¬ c.val.toNat ≤ 0x7f := fun hle => h (Nat.lt_succ_iff.mpr hle)
  simp only [encodeChar, String.utf8EncodeChar, hgt, if_false]
  split_ifs
  all_goals
    refine ⟨_, _, rfl, ?_, ?_⟩
    · rw [toNat_ofUInt8_ofNat]
      omega
    · simp only [List.map_cons, List.map_nil, List.mem_cons, List.not_mem_nil, or_false,
        forall_eq_or_imp, forall_eq, toNat_ofUInt8_ofNat]
      omega

@[simp] lemma bytes_nil : bytes [] = [] := rfl

@[simp] lemma bytes_cons (c : Char) (s : Str) : bytes (c :: s) = encodeChar c ++ bytes s := rfl

@[simp] lemma bytes_append (s t : Str) : bytes (s ++ t) = bytes s ++ bytes t :=
  List.flatMap_append

@[simp] lemma len_nil : len [] = 0 := rfl

lemma len_cons (c : Char) (s : Str) : len (c :: s) = (encodeChar c).length + len s := by
  simp [len]

@[simp] lemma len_append (s t : Str) : len (s ++ t) = len s + len t := by
  simp [len]

lemma bytes_of_isAscii {s : Str} (h : ∀ c ∈ s, isAscii c) : bytes s = s := by
  induction s with
  | nil => rfl
  | cons c s ih =>
    obtain ⟨hc, hs⟩ := List.forall_mem_cons.mp h
    rw [bytes_cons, encodeChar_of_isAscii hc, ih hs]
    rfl

lemma len_of_isAscii {s : Str} (h : ∀ c ∈ s, isAscii c) : len s = s.length := by
  rw [len, bytes_of_isAscii h]

/-- An ASCII byte is a character of the text. -/
lemma exists_of_bytes_eq_cons {s r : Str} {b : Char} (hb : isAscii b) (h : bytes s = b :: r) :
    ∃ t, s = b :: t ∧ bytes t = r := by
  cases s with
  | nil => cases h
  | cons c s =>
    by_cases hc : isAscii c
    · rw [bytes_cons, encodeChar_of_isAscii hc] at h
      obtain ⟨rfl, rfl⟩ := List.cons.inj h
      exact ⟨s, rfl, rfl⟩
    · obtain ⟨lead, conts, henc, hlead, -⟩ := encodeChar_of_not_isAscii hc
      rw [bytes_cons, henc] at h
      obtain ⟨rfl, -⟩ := List.cons.inj h
      exact absurd hb (by rw [isAscii]; omega)

/-- ASCII bytes at the start of a text are its first characters. -/
lemma exists_of_bytes_eq_append {s m r : Str} (hm : ∀ c ∈ m, isAscii c) (h : bytes s = m ++ r) :
    ∃ t, s = m ++ t ∧ bytes t = r := by
  induction m generalizing s with
  | nil => exact ⟨s, rfl, h⟩
  | cons b m ih =>
    obtain ⟨hb, hm⟩ := List.forall_mem_cons.mp hm
    rw [List.cons_append] at h
    obtain ⟨s, rfl, hs⟩ := exists_of_bytes_eq_cons hb h
    obtain ⟨t, rfl, ht⟩ := ih hm hs
    exact ⟨t, rfl, ht⟩

/-- A text can be cut in front of each of its ASCII bytes. -/
lemma exists_of_bytes_eq_append_cons {s a r : Str} {b : Char} (hb : isAscii b)
    (h : bytes s = a ++ b :: r) : ∃ s₁ s₂, s = s₁ ++ s₂ ∧ bytes s₁ = a ∧ bytes s₂ = b :: r := by
  induction s generalizing a with
  | nil =>
    rw [bytes_nil, eq_comm, List.append_eq_nil_iff] at h
    cases h.2
  | cons c s ih =>
    rw [bytes_cons] at h
    rcases List.append_eq_append_iff.mp h with ⟨a', rfl, hs⟩ | ⟨enc, henc, hr⟩
    · obtain ⟨s₁, s₂, rfl, rfl, hs₂⟩ := ih hs
      exact ⟨c :: s₁, s₂, rfl, rfl, hs₂⟩
    · cases a with
      | nil => exact ⟨[], c :: s, rfl, rfl, by rw [bytes_cons, h, List.nil_append]⟩
      | cons x a =>
        cases enc with
        | nil =>
          rw [List.append_nil] at henc
          exact ⟨[c], s, rfl, by rw [bytes_cons, bytes_nil, henc, List.append_nil], hr.symm⟩
        | cons y enc =>
          -- the byte would be a continuation byte of `c`
          obtain ⟨rfl, -⟩ := List.cons.inj hr
          by_cases hc : isAscii c
          · rw [encodeChar_of_isAscii hc] at henc
            simp at henc
          · obtain ⟨lead, conts, henc', -, hconts⟩ := encodeChar_of_not_isAscii hc
            rw [henc', List.cons_append] at henc
            obtain ⟨-, rfl⟩ := List.cons.inj henc
            have := (hconts b (by simp)).1
            exact absurd hb (by rw [isAscii]; omega)

lemma mem_of_mem_bytes {s : Str} {b : Char} (hb : isAscii b) (h : b ∈ bytes s) : b ∈ s := by
  obtain ⟨a, r, hs⟩ := List.append_of_mem h
  obtain ⟨s₁, s₂, rfl, -, hs₂⟩ := exists_of_bytes_eq_append_cons hb hs
  obtain ⟨t, rfl, -⟩ := exists_of_bytes_eq_cons hb hs₂
  simp

/-! ### Indices -/

lemma byteAt_of_drop {bytes rest : Str} {i : ℕ} {b : Char} (h : bytes.drop i = b :: rest) :
    i < bytes.length ∧ byteAt bytes i = .ok b ∧ bytes.drop (i + 1) = rest := by
  have hlt : i < bytes.length := by
    by_contra hge
    rw [List.drop_eq_nil_of_le (not_lt.mp hge)] at h
    cases h
  rw [List.drop_eq_getElem_cons hlt] at h
  obtain ⟨rfl, hrest⟩ := List.cons.inj h
  refine ⟨hlt, ?_, hrest⟩
  rw [byteAt, List.getElem?_eq_getElem hlt]

lemma le_of_drop_eq_nil {bytes : Str} {i : ℕ} (h : bytes.drop i = []) : ¬ i < bytes.length :=
  not_lt.mpr (List.drop_eq_nil_iff.mp h)

lemma drop_add_of_drop {bytes a r : Str} {i : ℕ} (h : bytes.drop i = a ++ r) :
    bytes.drop (i + a.length) = r := by
  rw [← List.drop_drop, h, List.drop_left]

lemma toNat_of_isAsciiAlphanumeric {c : Char} (h : isAsciiAlphanumeric c = true) :
    48 ≤ c.toNat ∧ c.toNat ≤ 122 := by
  have hle : ∀ d e : Char, d ≤ c → c ≤ e → d.toNat ≤ c.toNat ∧ c.toNat ≤ e.toNat :=
    fun _ _ hd he => ⟨hd, he⟩
  simp only [isAsciiAlphanumeric, isAsciiAlphabetic, Bool.or_eq_true, Bool.and_eq_true,
    decide_eq_true_eq] at h
  rcases h with (⟨hd, he⟩ | ⟨hd, he⟩) | ⟨hd, he⟩
  · exact (hle _ _ hd he).imp (le_trans (by decide)) (le_trans · (by decide))
  · exact (hle _ _ hd he).imp (le_trans (by decide)) (le_trans · (by decide))
  · exact (hle _ _ hd he).imp (le_trans (by decide)) (le_trans · (by decide))

lemma isAscii_of_isAsciiAlphanumeric {c : Char} (h : isAsciiAlphanumeric c = true) : isAscii c :=
  lt_of_le_of_lt (toNat_of_isAsciiAlphanumeric h).2 (by decide)

lemma isAscii_of_isAsciiWhitespace {c : Char} (h : isAsciiWhitespace c = true) : isAscii c := by
  simp only [isAsciiWhitespace, Bool.or_eq_true, beq_iff_eq] at h
  rcases h with (((rfl | rfl) | rfl) | rfl) | rfl <;> decide

/-! ### Slices -/

lemma encodeChar_ne_nil (c : Char) : encodeChar c ≠ [] := by
  rw [encodeChar, Ne, List.map_eq_nil_iff]
  exact String.utf8EncodeChar_ne_nil

lemma len_eq_zero {s : Str} (h : s.len = 0) : s = [] := by
  cases s with
  | nil => rfl
  | cons c s =>
    rw [len_cons, Nat.add_eq_zero_iff, List.length_eq_zero_iff] at h
    exact absurd h.1 (encodeChar_ne_nil c)

lemma splitAt?_len_append (s t : Str) : splitAt? (s ++ t) s.len = some (s, t) := by
  induction s with
  | nil => cases t <;> rfl
  | cons c s ih =>
    have hpos : 0 < (encodeChar c).length := List.length_pos_iff.mpr (encodeChar_ne_nil c)
    obtain ⟨n, hn⟩ : ∃ n, len (c :: s) = n + 1 := ⟨len (c :: s) - 1, by rw [len_cons]; omega⟩
    have hlen : (encodeChar c).length + len s = n + 1 := by rw [← hn, len_cons]
    rw [hn, List.cons_append, splitAt?, if_pos (by omega), ← hlen, Nat.add_sub_cancel_left, ih]
    rfl

lemma slice_append (s m t : Str) : slice (s ++ m ++ t) s.len (s.len + m.len) = .ok m := by
  rw [← len_append, slice, splitAt?_len_append]
  simp only [Option.bind_eq_bind, Option.bind_some, splitAt?_len_append]

lemma sliceFrom_append (s t : Str) : sliceFrom (s ++ t) s.len = .ok t := by
  have := slice_append s t []
  rwa [List.append_nil, ← len_append] at this

/-- A text can be cut in front of an ASCII byte. -/
lemma exists_cut {raw : Str} {i : ℕ} {b : Char} {r : Str} (hb : isAscii b)
    (h : raw.bytes.drop i = b :: r) :
    ∃ front back : Str, raw = front ++ back ∧ front.len = i ∧ back.bytes = b :: r := by
  have hlt := (byteAt_of_drop h).1
  have hbytes : raw.bytes = raw.bytes.take i ++ b :: r := by rw [← h, List.take_append_drop]
  obtain ⟨front, back, hraw, hfront, hback⟩ := exists_of_bytes_eq_append_cons hb hbytes
  refine ⟨front, back, hraw, ?_, hback⟩
  rw [len, hfront, List.length_take]
  omega

/-! ### Searching -/

/-- Where the characters of a kind end. -/
lemma span_append {p : Char → Bool} {w s : Str} (hw : ∀ c ∈ w, p c = true)
    (hs : ∀ c ∈ s.head?, p c = false) :
    (w ++ s).takeWhile p = w ∧ (w ++ s).dropWhile p = s := by
  rw [List.takeWhile_append_of_pos hw, List.dropWhile_append_of_pos hw]
  cases s with
  | nil => simp
  | cons c s => simp [hs c rfl]

lemma find_eq_splitFirst (pat s : Str) : find pat s = (splitFirst pat s).map fun p => len p.1 := by
  induction s with
  | nil =>
    rw [find, splitFirst]
    split_ifs <;> rfl
  | cons c s ih =>
    rw [find, splitFirst, ih]
    split_ifs
    · rfl
    · simp only [Option.map_map, Function.comp_def, len_cons]

lemma eq_of_splitFirst {pat s a b : Str} (h : splitFirst pat s = some (a, b)) :
    s = a ++ pat ++ b := by
  induction s generalizing a with
  | nil =>
    rw [splitFirst] at h
    split_ifs at h with hpat
    cases h
    rw [hpat]
    rfl
  | cons c s ih =>
    rw [splitFirst] at h
    split_ifs at h with hpat
    · obtain ⟨rfl, rfl⟩ := Prod.mk.inj (Option.some.inj h)
      exact List.prefix_append_drop hpat
    · obtain ⟨⟨a', b'⟩, hs, heq⟩ := Option.map_eq_some_iff.mp h
      obtain ⟨rfl, rfl⟩ := Prod.mk.inj heq
      rw [ih hs]
      rfl

lemma splitFirst_singleton {c : Char} {s a b : Str} :
    splitFirst [c] s = some (a, b) ↔ s = a ++ c :: b ∧ c ∉ a := by
  induction s generalizing a with
  | nil => simp [splitFirst]
  | cons d s ih =>
    rw [splitFirst]
    by_cases hd : c = d
    · subst hd
      rw [if_pos ⟨s, rfl⟩]
      cases a with
      | nil => simp
      | cons x a =>
        constructor
        · intro h
          cases h
        · rintro ⟨h, hmem⟩
          obtain ⟨rfl, -⟩ := List.cons.inj h
          exact absurd List.mem_cons_self hmem
    · have hpat : ¬ [c] <+: d :: s := fun h => hd (List.cons_prefix_cons.mp h).1
      rw [if_neg hpat, Option.map_eq_some_iff]
      constructor
      · rintro ⟨⟨a', b'⟩, hs, heq⟩
        obtain ⟨rfl, rfl⟩ := Prod.mk.inj heq
        obtain ⟨rfl, hmem⟩ := ih.mp hs
        exact ⟨rfl, List.not_mem_cons_of_ne_of_not_mem hd hmem⟩
      · rintro ⟨h, hmem⟩
        cases a with
        | nil => exact absurd (List.cons.inj h).1.symm hd
        | cons x a =>
          obtain ⟨rfl, rfl⟩ := List.cons.inj h
          exact ⟨(a, b), ih.mpr ⟨rfl, fun hc => hmem (List.mem_cons_of_mem _ hc)⟩, rfl⟩

lemma replace_of_not_contains {s pat : Str} (h : contains s pat = false) (new : Str) :
    replace s pat new = s := by
  rw [contains, Option.isSome_eq_false_iff, Option.isNone_iff_eq_none] at h
  rw [replace]
  induction s with
  | nil => rfl
  | cons c s ih =>
    rw [find] at h
    split_ifs at h with hpre
    rw [replaceSkip, if_neg hpre, ih (Option.map_eq_none_iff.mp h)]

/-! ### What is not found -/

lemma splitFirst_eq_none {pat s : Str} : splitFirst pat s = none ↔ ¬ pat <:+: s := by
  induction s with
  | nil =>
    rw [splitFirst, List.infix_nil]
    split_ifs with h
    · simp [h]
    · simp [h]
  | cons c s ih =>
    rw [splitFirst, List.infix_cons_iff, not_or]
    split_ifs with h
    · simp [h]
    · rw [Option.map_eq_none_iff, ih]
      simp [h]

lemma contains_eq_false {s pat : Str} : contains s pat = false ↔ ¬ pat <:+: s := by
  rw [contains, find_eq_splitFirst, Option.isSome_map, Option.isSome_eq_false_iff,
    Option.isNone_iff_eq_none, splitFirst_eq_none]

/-- A text that starts with a character of which it has no other is found where it stands. -/
lemma splitFirst_append {p : Char} {ps a : Str} (hp : p ∉ ps) (ha : ¬ (p :: ps) <:+: a) (b : Str) :
    splitFirst (p :: ps) (a ++ ((p :: ps) ++ b)) = some (a, b) := by
  induction a with
  | nil =>
    rw [List.nil_append, List.cons_append, splitFirst, if_pos ⟨b, rfl⟩]
    simp
  | cons c a ih =>
    rw [List.infix_cons_iff, not_or] at ha
    have hpre : ¬ (p :: ps) <+: c :: (a ++ ((p :: ps) ++ b)) := by
      intro hpre
      obtain ⟨rfl, hps⟩ := List.cons_prefix_cons.mp hpre
      rcases List.prefix_or_prefix_of_prefix hps (List.prefix_append a _) with hle | ⟨q, rfl⟩
      · exact ha.1 (List.cons_prefix_cons.mpr ⟨rfl, hle⟩)
      · cases q with
        | nil => exact ha.1 (by simp)
        | cons d q =>
          have hd := List.prefix_append_right_inj a |>.mp hps
          obtain ⟨rfl, -⟩ := List.cons_prefix_cons.mp hd
          exact hp (by simp)
    rw [List.cons_append, splitFirst, if_neg hpre, ih ha.2]
    rfl

lemma not_infix_cons {p c : Char} {ps s : Str} (hc : c ≠ p) (hs : ¬ (p :: ps) <:+: s) :
    ¬ (p :: ps) <:+: c :: s := by
  rw [List.infix_cons_iff, not_or]
  exact ⟨fun h => hc (List.cons_prefix_cons.mp h).1.symm, hs⟩

lemma not_infix_append {p : Char} {ps a s : Str} (ha : p ∉ a) (hs : ¬ (p :: ps) <:+: s) :
    ¬ (p :: ps) <:+: a ++ s := by
  induction a with
  | nil => exact hs
  | cons c a ih =>
    have hc : c ≠ p := fun hc => ha (hc ▸ List.mem_cons_self)
    exact not_infix_cons hc (ih fun hp => ha (List.mem_cons_of_mem c hp))

/-! ### Trimming -/

/-- A text of white space. -/
def Blank (s : Str) : Prop := ∀ c ∈ s, isWhitespace c = true

lemma blank_nil : Blank [] := nofun

lemma blank_cons {c : Char} {s : Str} : Blank (c :: s) ↔ isWhitespace c = true ∧ Blank s :=
  List.forall_mem_cons

lemma blank_append {s t : Str} : Blank (s ++ t) ↔ Blank s ∧ Blank t := List.forall_mem_append

lemma exists_trim (s : Str) : ∃ w w' : Str, Blank w ∧ Blank w' ∧ s = w ++ s.trim ++ w' := by
  refine ⟨s.takeWhile isWhitespace, s.trimStart.rtakeWhile isWhitespace, ?_, ?_, ?_⟩
  · exact fun c hc => List.mem_takeWhile_imp hc
  · exact fun c hc => List.mem_rtakeWhile_imp hc
  · rw [trim, trimEnd, List.append_assoc, List.rdropWhile_append_rtakeWhile, trimStart,
      List.takeWhile_append_dropWhile]

lemma getLast?_trim {s : Str} {c : Char} (h : s.trim.getLast? = some c) :
    isWhitespace c = false := by
  have hne : s.trim ≠ [] := by
    rintro hnil
    rw [hnil] at h
    cases h
  rw [List.getLast?_eq_some_getLast hne, Option.some.injEq] at h
  rw [← h, ← Bool.not_eq_true]
  exact List.rdropWhile_last_not _ _ hne

/-- Trimming cuts off the white space around a text that starts and ends with something else. -/
lemma trim_append {w s w' : Str} (hw : Blank w) (hw' : Blank w')
    (hhead : ∀ c, s.head? = some c → isWhitespace c = false)
    (hlast : ∀ c, s.getLast? = some c → isWhitespace c = false) : trim (w ++ s ++ w') = s := by
  have hstart : trimStart (w ++ s ++ w') = s ++ if s = [] then [] else w' := by
    rw [trimStart, List.append_assoc, List.dropWhile_append_of_pos hw]
    cases s with
    | nil => simpa [Blank] using hw'
    | cons c s => simp [hhead c rfl]
  have hblank : ∀ c ∈ (if s = [] then [] else w').reverse, isWhitespace c = true := by
    split_ifs
    · simp
    · simpa [Blank] using hw'
  rw [trim, hstart, trimEnd, List.rdropWhile, List.reverse_append,
    List.dropWhile_append_of_pos hblank]
  cases hrev : s.reverse with
  | nil => simpa using hrev.symm
  | cons c t =>
    have hc := hlast c (by rw [← List.head?_reverse, hrev]; rfl)
    rw [List.dropWhile_cons_of_neg (by simp [hc]), ← hrev, List.reverse_reverse]

/-- Cut off the white space behind a text that does not start with it. -/
lemma exists_blank_suffix {c : Char} (hc : isWhitespace c = false) (s : Str) :
    ∃ s' w : Str, Blank w ∧ s = s' ++ w ∧
      ∀ d, (c :: s').getLast? = some d → isWhitespace d = false := by
  obtain ⟨w, w', hw, hw', heq⟩ := exists_trim (c :: s)
  cases w with
  | cons d w =>
    obtain ⟨rfl, -⟩ := List.cons.inj heq
    rw [(blank_cons.mp hw).1] at hc
    cases hc
  | nil =>
    cases htrim : trim (c :: s) with
    | nil =>
      rw [htrim, List.nil_append, List.nil_append] at heq
      rw [← heq] at hw'
      rw [(blank_cons.mp hw').1] at hc
      cases hc
    | cons d s' =>
      rw [htrim, List.nil_append, List.cons_append] at heq
      obtain ⟨rfl, rfl⟩ := List.cons.inj heq
      exact ⟨s', w', hw', rfl, fun d hd => getLast?_trim (htrim ▸ hd)⟩

lemma trim_of_blank_append_singleton {w w' : Str} {c : Char} (hw : Blank w) (hw' : Blank w')
    (hc : isWhitespace c = false) : trim (w ++ c :: w') = [c] := by
  have := trim_append (s := [c]) hw hw' (by simpa using hc) (by simpa using hc)
  simpa using this

lemma stripPrefix_eq_some {s pat t : Str} : stripPrefix s pat = some t ↔ s = pat ++ t := by
  rw [stripPrefix]
  constructor
  · intro h
    split_ifs at h with hpre
    cases h
    exact List.prefix_append_drop hpre
  · rintro rfl
    rw [if_pos (List.prefix_append pat t), List.drop_left]

lemma stripSuffix_eq_some {s pat t : Str} : stripSuffix s pat = some t ↔ s = t ++ pat := by
  rw [stripSuffix]
  constructor
  · intro h
    split_ifs at h with hsuf
    cases h
    obtain ⟨r, rfl⟩ := hsuf
    simp
  · rintro rfl
    rw [if_pos (List.suffix_append t pat)]
    simp

end Str
end ModelApi.Lib
