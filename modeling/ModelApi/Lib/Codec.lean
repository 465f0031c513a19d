import Mathlib

/-!
# Positional binary formats

A `Codec` is an encoder, a decoder that returns what it did not consume, and the law that the
decoder undoes the encoder in front of any further bytes. The combinators below build the
codec of a record or a list from the codecs of its parts, so that the law of a composite
format is never proved again.

Lengths are written as 64-bit integers, hence the bound in the law: an encoding whose length
does not fit 64 bits cannot be read back.
-/

namespace ModelApi.Lib

/-! ### Little-endian integers -/

/-- The `w` low-order bytes of `n`, least significant first. -/
def leBytes : ℕ → ℕ → List UInt8
  | 0,     _ => []
  | w + 1, n => UInt8.ofNat (n % 256) :: leBytes w (n / 256)

/-- The number whose little-endian bytes are given. -/
def ofLe : List UInt8 → ℕ
  | []      => 0
  | b :: bs => b.toNat + 256 * ofLe bs

@[simp] lemma length_leBytes (w n : ℕ) : (leBytes w n).length = w := by
  induction w generalizing n with
  | zero => rfl
  | succ w ih => simp [leBytes, ih]

lemma ofLe_leBytes (w n : ℕ) : ofLe (leBytes w n) = n % 256 ^ w := by
  induction w generalizing n with
  | zero => simp [leBytes, ofLe, Nat.mod_one]
  | succ w ih =>
    have hb : (UInt8.ofNat (n % 256)).toNat = n % 256 := by
      rw [UInt8.toNat_ofNat']; omega
    simp only [leBytes, ofLe, hb, ih]
    rw [pow_succ', Nat.mod_mul]

lemma ofLe_leBytes_of_lt {w n : ℕ} (h : n < 256 ^ w) : ofLe (leBytes w n) = n := by
  rw [ofLe_leBytes, Nat.mod_eq_of_lt h]

/-- Equal-width encodings of two numbers that fit agree only on equal numbers. -/
lemma leBytes_inj {w m n : ℕ} (hm : m < 256 ^ w) (hn : n < 256 ^ w)
    (h : leBytes w m = leBytes w n) : m = n := by
  rw [← ofLe_leBytes_of_lt hm, ← ofLe_leBytes_of_lt hn, h]

lemma leBytes_ofLe (bs : List UInt8) : leBytes bs.length (ofLe bs) = bs := by
  induction bs with
  | nil => rfl
  | cons b bs ih =>
    have hlow : (b.toNat + 256 * ofLe bs) % 256 = b.toNat := by
      have := b.toNat_lt
      omega
    have hhigh : (b.toNat + 256 * ofLe bs) / 256 = ofLe bs := by
      have := b.toNat_lt
      omega
    rw [List.length_cons, ofLe, leBytes, hlow, hhigh, ih, UInt8.ofNat_toNat]

lemma ofLe_lt (bs : List UInt8) : ofLe bs < 256 ^ bs.length := by
  induction bs with
  | nil => simp [ofLe]
  | cons b bs ih =>
    have := b.toNat_lt
    rw [List.length_cons, ofLe, pow_succ']
    omega

/-! ### Codecs -/

/-- A binary format for `α`, decodable in front of any further bytes. Decoding fails with an
error of type `ε`. -/
structure Codec (ε α : Type) where
  encode : α → List UInt8
  decode : List UInt8 → Except ε (α × List UInt8)
  decode_encode : ∀ (a : α) (rest : List UInt8), (encode a).length < 2 ^ 64 →
    decode (encode a ++ rest) = .ok (a, rest)

namespace Codec

variable {ε α β γ : Type}

/-- A fixed-width field: `w` bytes, read through `ofNat` and written through `toNat`. -/
def fixed (w : ℕ) (eof : ε) (toNat : α → ℕ) (ofNat : ℕ → α) (hlt : ∀ a, toNat a < 256 ^ w)
    (hinv : ∀ a, ofNat (toNat a) = a) : Codec ε α where
  encode a := leBytes w (toNat a)
  decode bs := if bs.length < w then .error eof else .ok (ofNat (ofLe (bs.take w)), bs.drop w)
  decode_encode a rest _ := by
    have hw : (leBytes w (toNat a)).length = w := length_leBytes w _
    rw [if_neg (by rw [List.length_append, hw]; omega), List.take_left' hw, List.drop_left' hw,
      ofLe_leBytes_of_lt (hlt a), hinv]

/-- Two fields, one after the other. -/
def prod (c : Codec ε α) (d : Codec ε β) : Codec ε (α × β) where
  encode p := c.encode p.1 ++ d.encode p.2
  decode bs := do
    let (a, bs) ← c.decode bs
    let (b, bs) ← d.decode bs
    pure ((a, b), bs)
  decode_encode p rest h := by
    rw [List.length_append] at h
    rw [List.append_assoc, c.decode_encode p.1 _ (by omega)]
    simp only [bind, Except.bind, d.decode_encode p.2 rest (by omega), pure, Except.pure]

/-- A format for `β` read through a format for `α` that carries the same data. -/
def imap (c : Codec ε α) (f : α → β) (g : β → α) (hfg : ∀ b, f (g b) = b) : Codec ε β where
  encode b := c.encode (g b)
  decode bs := do
    let (a, bs) ← c.decode bs
    pure (f a, bs)
  decode_encode b rest h := by
    rw [c.decode_encode (g b) rest h]
    simp only [bind, Except.bind, pure, Except.pure, hfg]

/-- Read a value and hand it to `f`. -/
def read (c : Codec ε α) (f : α → β) (bs : List UInt8) : Except ε (β × List UInt8) := do
  let (a, bs) ← c.decode bs
  pure (f a, bs)

lemma read_encode (c : Codec ε α) (f : α → β) {a : α} (h : (c.encode a).length < 2 ^ 64)
    (rest : List UInt8) : c.read f (c.encode a ++ rest) = .ok (f a, rest) := by
  simp only [read, c.decode_encode a rest h, bind, Except.bind, pure, Except.pure]

/-- The format of a record without fields. -/
def unit : Codec ε Unit where
  encode _ := []
  decode bs := .ok ((), bs)
  decode_encode _ _ _ := rfl

lemma prod_encode_ne_nil {c : Codec ε α} {d : Codec ε β} (hc : ∀ a, c.encode a ≠ []) (p : α × β) :
    (c.prod d).encode p ≠ [] :=
  List.append_ne_nil_of_left_ne_nil (hc p.1) _

/-- `n` values in a row. -/
def decodeN (c : Codec ε α) : ℕ → List UInt8 → Except ε (List α × List UInt8)
  | 0,     bs => .ok ([], bs)
  | n + 1, bs => do
    let (a, bs) ← c.decode bs
    let (as, bs) ← decodeN c n bs
    pure (a :: as, bs)

lemma decodeN_encode (c : Codec ε α) (as : List α) (rest : List UInt8)
    (h : (as.flatMap c.encode).length < 2 ^ 64) :
    c.decodeN as.length (as.flatMap c.encode ++ rest) = .ok (as, rest) := by
  induction as with
  | nil => rfl
  | cons a as ih =>
    rw [List.flatMap_cons, List.length_append] at h
    simp only [List.length_cons, decodeN, List.flatMap_cons, List.append_assoc,
      c.decode_encode a _ (by omega), bind, Except.bind, ih (by omega), pure, Except.pure]

/-- A list whose elements all take at least one byte is no longer than its encoding. -/
lemma length_le_flatMap_encode (c : Codec ε α) (hpos : ∀ a, c.encode a ≠ []) (as : List α) :
    as.length ≤ (as.flatMap c.encode).length := by
  induction as with
  | nil => simp
  | cons a as ih =>
    have ha := List.length_pos_iff.mpr (hpos a)
    rw [List.flatMap_cons, List.length_append, List.length_cons]
    omega

/-- A 64-bit element count followed by the elements. -/
def list (count : Codec ε UInt64) (c : Codec ε α) (hpos : ∀ a, c.encode a ≠ []) :
    Codec ε (List α) where
  encode as := count.encode (UInt64.ofNat as.length) ++ as.flatMap c.encode
  decode bs := do
    let (n, bs) ← count.decode bs
    c.decodeN n.toNat bs
  decode_encode as rest h := by
    rw [List.length_append] at h
    have hlen : as.length < 2 ^ 64 := by
      have := length_le_flatMap_encode c hpos as
      omega
    have hn : (UInt64.ofNat as.length).toNat = as.length := by
      rw [UInt64.toNat_ofNat', Nat.mod_eq_of_lt hlen]
    rw [List.append_assoc, count.decode_encode _ _ (by omega)]
    simp only [bind, Except.bind, hn, decodeN_encode c as rest (by omega)]

/-! ### Strict formats -/

lemma bind_eq_ok {x : Except ε α} {f : α → Except ε β} {b : β} :
    (x >>= f) = .ok b ↔ ∃ a, x = .ok a ∧ f a = .ok b := by
  cases x with
  | error e => simp [bind, Except.bind]
  | ok a => simp [bind, Except.bind]

/-- The decoder accepts what the encoder writes, and nothing else. -/
def Strict (c : Codec ε α) : Prop :=
  ∀ ⦃bs a rest⦄, c.decode bs = .ok (a, rest) → bs = c.encode a ++ rest

namespace Strict

lemma fixed {w : ℕ} {eof : ε} {toNat : α → ℕ} {ofNat : ℕ → α} {hlt : ∀ a, toNat a < 256 ^ w}
    {hinv : ∀ a, ofNat (toNat a) = a} (hback : ∀ n < 256 ^ w, toNat (ofNat n) = n) :
    (Codec.fixed w eof toNat ofNat hlt hinv).Strict := by
  intro bs a rest h
  simp only [Codec.fixed] at h ⊢
  split_ifs at h with hw
  cases h
  have hlen : (bs.take w).length = w := List.length_take_of_le (not_lt.mp hw)
  have hbound := ofLe_lt (bs.take w)
  rw [hlen] at hbound
  have hle := leBytes_ofLe (bs.take w)
  rw [hlen] at hle
  rw [hback _ hbound, hle, List.take_append_drop]

lemma prod {c : Codec ε α} {d : Codec ε β} (hc : c.Strict) (hd : d.Strict) :
    (c.prod d).Strict := by
  rintro bs ⟨a, b⟩ rest h
  obtain ⟨⟨a', bs'⟩, ha, h⟩ := bind_eq_ok.mp h
  obtain ⟨⟨b', bs''⟩, hb, h⟩ := bind_eq_ok.mp h
  cases h
  rw [hc ha, hd hb]
  exact (List.append_assoc ..).symm

lemma imap {c : Codec ε α} {f : α → β} {g : β → α} {hfg : ∀ b, f (g b) = b} (hc : c.Strict)
    (hgf : ∀ a, g (f a) = a) : (c.imap f g hfg).Strict := by
  intro bs b rest h
  obtain ⟨⟨a, bs'⟩, ha, h⟩ := bind_eq_ok.mp h
  cases h
  rw [hc ha]
  exact congrArg (c.encode · ++ rest) (hgf a).symm

/-- What a reader of a field accepts. -/
lemma read {c : Codec ε α} (hc : c.Strict) {f : α → β} {bs : List UInt8} {b : β}
    {rest : List UInt8} (h : c.read f bs = .ok (b, rest)) :
    ∃ a, b = f a ∧ bs = c.encode a ++ rest := by
  obtain ⟨⟨a, bs'⟩, ha, h⟩ := bind_eq_ok.mp h
  cases h
  exact ⟨a, rfl, hc ha⟩

lemma unit : (Codec.unit : Codec ε Unit).Strict := by
  rintro bs ⟨⟩ rest h
  cases h
  rfl

lemma decodeN {c : Codec ε α} (hc : c.Strict) {n : ℕ} {bs : List UInt8} {as : List α}
    {rest : List UInt8} (h : c.decodeN n bs = .ok (as, rest)) :
    as.length = n ∧ bs = as.flatMap c.encode ++ rest := by
  induction n generalizing bs as with
  | zero =>
    cases h
    exact ⟨rfl, rfl⟩
  | succ n ih =>
    obtain ⟨⟨a, bs'⟩, ha, h⟩ := bind_eq_ok.mp h
    obtain ⟨⟨as', bs''⟩, has, h⟩ := bind_eq_ok.mp h
    cases h
    obtain ⟨hlen, htail⟩ := ih has
    refine ⟨by rw [List.length_cons, hlen], ?_⟩
    rw [hc ha, htail, List.flatMap_cons, List.append_assoc]

lemma list {count : Codec ε UInt64} {c : Codec ε α} {hpos : ∀ a, c.encode a ≠ []}
    (hcount : count.Strict) (hc : c.Strict) : (Codec.list count c hpos).Strict := by
  intro bs as rest h
  obtain ⟨⟨n, bs'⟩, hn, h⟩ := bind_eq_ok.mp h
  obtain ⟨hlen, htail⟩ := hc.decodeN h
  have hcount' : UInt64.ofNat as.length = n := by rw [hlen, UInt64.ofNat_toNat]
  rw [hcount hn, htail, ← hcount', ← List.append_assoc]
  rfl

end Strict

end Codec

end ModelApi.Lib
