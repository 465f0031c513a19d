import ModelApi.Lib.Unambiguous
import ModelApi.Proto.Bincode

/-!
# The prefix-cache key

The LiteRT-LM slot pools conversations under a hash of the canonical bytes of their prefix:
the system prompt, the two sampler values and the turns. This module is about these bytes, and
about which prefixes they tell apart.
-/

namespace ModelApi.LiteRt

open Lib Bincode

/-- What a cache key stands for. -/
structure Prefix where
  systemPrompt : Option String
  topP : F32
  temperature : F32
  turns : List Turn
  deriving DecidableEq, Repr

/-- `b"sys\0"`. -/
def sysTag : List UInt8 := [115, 121, 115, 0]

/-- `b"\0sampler\0"`. -/
def samplerTag : List UInt8 := [0, 115, 97, 109, 112, 108, 101, 114, 0]

/-- `b"\0turns\0"`. -/
def turnsTag : List UInt8 := [0, 116, 117, 114, 110, 115, 0]

/-- The byte that stands for a role. -/
def roleByte : Role → UInt8
  | .system    => 0
  | .user      => 1
  | .assistant => 2
  | .tool      => 3

/-- A length as `u32`, saturating at the largest one. -/
def u32Len (n : ℕ) : ℕ := if n < 2 ^ 32 then n else 2 ^ 32 - 1

/-- A string behind its length. -/
def lengthPrefixed (s : String) : List UInt8 := leBytes 4 (u32Len (utf8 s).length) ++ utf8 s

/-- The bytes of one turn. A missing `tool_call_id` leaves no trace. -/
def turnBytes (t : Turn) : List UInt8 :=
  roleByte t.role :: (lengthPrefixed t.content ++
    match t.toolCallId with
    | none      => []
    | some tcid => lengthPrefixed tcid)

def canonicalPrefixBytes (systemPrompt : Option String) (samplerTopP samplerTemperature : F32)
    (turns : List Turn) : List UInt8 :=
  sysTag ++ (match systemPrompt with | none => [] | some s => utf8 s) ++ samplerTag ++
    leBytes 4 samplerTopP.bits.toNat ++ leBytes 4 samplerTemperature.bits.toNat ++ turnsTag ++
    turns.flatMap turnBytes

/-- The upper 64 bits of the 128-bit hash of the canonical bytes. -/
def hashPrefix (xxh3_128 : List UInt8 → BitVec 128) (systemPrompt : Option String)
    (samplerTopP samplerTemperature : F32) (turns : List Turn) : BitVec 64 :=
  (xxh3_128 (canonicalPrefixBytes systemPrompt samplerTopP samplerTemperature turns)
    >>> 64).setWidth 64

namespace Prefix

/-- The effective system text: no prompt counts as the empty one. -/
def sysText (p : Prefix) : String := p.systemPrompt.getD ""

def bytes (p : Prefix) : List UInt8 :=
  canonicalPrefixBytes p.systemPrompt p.topP p.temperature p.turns

/-- Two prefixes a conversation cannot tell apart. -/
def Same (p q : Prefix) : Prop :=
  p.sysText = q.sysText ∧ p.topP = q.topP ∧ p.temperature = q.temperature ∧ p.turns = q.turns

instance (p q : Prefix) : Decidable (p.Same q) := inferInstanceAs (Decidable (_ ∧ _))

lemma bytes_eq (p : Prefix) :
    p.bytes = sysTag ++ (utf8 p.sysText ++ (samplerTag ++ (leBytes 4 p.topP.bits.toNat ++
      (leBytes 4 p.temperature.bits.toNat ++ (turnsTag ++ p.turns.flatMap turnBytes))))) := by
  have hsys : (match p.systemPrompt with | none => [] | some s => utf8 s) = utf8 p.sysText := by
    rw [sysText]
    cases p.systemPrompt with
    | none => rfl
    | some s => rfl
  simp only [bytes, canonicalPrefixBytes, hsys, List.append_assoc]

/-- What wire requests can carry: strings shorter than 2^32 bytes. -/
structure Wire (p : Prefix) : Prop where
  sysText : (utf8 p.sysText).length < 2 ^ 32
  content : ∀ t ∈ p.turns, (utf8 t.content).length < 2 ^ 32
  toolCallId : ∀ t ∈ p.turns, ∀ tcid ∈ t.toolCallId, (utf8 tcid).length < 2 ^ 32

end Prefix

/-! ### What the bytes determine -/

lemma roleByte_injective : Function.Injective roleByte := by
  intro r s h
  cases r <;> cases s <;> first | rfl | exact absurd h (by decide)

lemma utf8_injective : Function.Injective utf8 := by
  intro s t h
  rw [← String.toByteArray_inj]
  exact ByteArray.ext (Array.toList_inj.mp h)

lemma utf8_ofList (cs : List Char) :
    utf8 (String.ofList cs) = cs.flatMap String.utf8EncodeChar := by
  simp [utf8, List.utf8Encode]

/-- No character takes more than four bytes. -/
lemma length_utf8_lt {cs : List Char} (h : cs.length < 2 ^ 30) :
    (utf8 (String.ofList cs)).length < 2 ^ 32 := by
  have hchar : ∀ c ∈ cs, (String.utf8EncodeChar c).length ≤ 4 := by
    intro c _
    rw [String.length_utf8EncodeChar]
    exact c.utf8Size_le_four
  rw [utf8_ofList, List.length_flatMap]
  calc (cs.map fun c => (String.utf8EncodeChar c).length).sum
    _ ≤ (cs.map fun c => (String.utf8EncodeChar c).length).length • 4 :=
      List.sum_le_card_nsmul _ 4 (List.forall_mem_map.mpr hchar)
    _ = cs.length * 4 := by rw [List.length_map, smul_eq_mul]
    _ < 2 ^ 32 := by omega

lemma u32Len_of_lt {n : ℕ} (h : n < 2 ^ 32) : u32Len n = n := if_pos h

/-- Strings shorter than 2^32 bytes show their end behind their length. -/
lemma selfDelimiting_lengthPrefixed_utf8 :
    SelfDelimiting (fun s : String => (utf8 s).length < 2 ^ 32) lengthPrefixed := by
  intro s t r r' hs ht heq
  rw [lengthPrefixed, lengthPrefixed, u32Len_of_lt hs, u32Len_of_lt ht] at heq
  obtain ⟨hst, hr⟩ := selfDelimiting_lengthPrefixed 4 hs ht heq
  exact ⟨utf8_injective hst, hr⟩

/-- A turn the key can carry, in a setting where `A` says which roles occur with (`true`) and
without (`false`) a `tool_call_id`. -/
structure Carried (A : Role → Bool → Prop) (t : Turn) : Prop where
  content : (utf8 t.content).length < 2 ^ 32
  toolCallId : ∀ tcid ∈ t.toolCallId, (utf8 tcid).length < 2 ^ 32
  shape : A t.role t.toolCallId.isSome

/-- When the role decides whether there is a `tool_call_id`, a turn shows where it ends. -/
lemma selfDelimiting_turnBytes {A : Role → Bool → Prop} (hA : ∀ r, ¬ (A r true ∧ A r false)) :
    SelfDelimiting (Carried A) turnBytes := by
  rintro ⟨role, content, tcid⟩ ⟨role', content', tcid'⟩ r s ht ht' heq
  simp only [turnBytes, List.cons_append, List.cons.injEq, List.append_assoc] at heq
  obtain ⟨hrole, hfields⟩ := heq
  obtain rfl := roleByte_injective hrole
  obtain ⟨rfl, hid⟩ := selfDelimiting_lengthPrefixed_utf8 ht.content ht'.content hfields
  cases tcid with
  | none =>
    cases tcid' with
    | none => exact ⟨rfl, hid⟩
    | some tcid' => exact absurd ⟨ht'.shape, ht.shape⟩ (hA role)
  | some tcid =>
    cases tcid' with
    | none => exact absurd ⟨ht.shape, ht'.shape⟩ (hA role)
    | some tcid' =>
      obtain ⟨rfl, hrest⟩ := selfDelimiting_lengthPrefixed_utf8 (ht.toolCallId _ rfl)
        (ht'.toolCallId _ rfl) hid
      exact ⟨rfl, hrest⟩

/-- A prefix that wire requests can carry, whose system text does not hold the delimiter behind
it early, and whose turns have the shapes `A`. -/
structure Prefix.Conforms (A : Role → Bool → Prop) (p : Prefix) : Prop extends p.Wire where
  delimited : ¬ EarlyIn samplerTag (utf8 p.sysText)
  shapes : ∀ t ∈ p.turns, A t.role t.toolCallId.isSome

lemma Prefix.Conforms.carried {A : Role → Bool → Prop} {p : Prefix} (h : p.Conforms A) :
    ∀ t ∈ p.turns, Carried A t :=
  fun t ht => ⟨h.content t ht, h.toolCallId t ht, h.shapes t ht⟩

lemma f32_bits_inj {x y : F32} (h : leBytes 4 x.bits.toNat = leBytes 4 y.bits.toNat) : x = y := by
  have := UInt32.toNat_inj.mp (leBytes_inj x.bits.toNat_lt y.bits.toNat_lt h)
  cases x
  cases y
  exact congrArg F32.mk this

/-- Equal canonical bytes come from equal prefixes when the role decides about the id. -/
lemma Prefix.Conforms.same_of_bytes_eq {A : Role → Bool → Prop}
    (hA : ∀ r, ¬ (A r true ∧ A r false)) {p q : Prefix} (hp : p.Conforms A) (hq : q.Conforms A)
    (heq : p.bytes = q.bytes) : p.Same q := by
  rw [p.bytes_eq, q.bytes_eq] at heq
  obtain ⟨hsys, heq⟩ :=
    eq_of_delimited hp.delimited hq.delimited (List.append_cancel_left heq)
  obtain ⟨htopP, heq⟩ := List.append_inj heq (by simp)
  obtain ⟨htemp, heq⟩ := List.append_inj heq (by simp)
  have hturns := (selfDelimiting_turnBytes hA).flatMap_inj (fun _ => by simp [turnBytes])
    hp.carried hq.carried (List.append_cancel_left heq)
  exact ⟨utf8_injective hsys, f32_bits_inj htopP, f32_bits_inj htemp, hturns⟩

/-! ### Different prefixes with the same bytes -/

/-- The turns that the bytes of `idReadAsTurns r` spell when they are read as turns. -/
def turnsReadFromId (r : Role) : List Turn :=
  [⟨r, "", none⟩, ⟨r, "a", none⟩, ⟨r, String.ofList (List.replicate 122 'a'), none⟩,
    ⟨r, String.ofList (List.replicate (122 + (roleByte r).toNat) 'a'), none⟩]

/-- An id on a turn of role `r` whose length and bytes are the bytes of three further turns of
the same role: the low byte of the length is the role byte, the rest of the length and the
first byte of the id are the length of the first content. -/
def idReadAsTurns (r : Role) : String :=
  let b := Char.ofNat (roleByte r).toNat
  String.ofList (['\x00', 'a', b, Char.ofNat 122, '\x00', '\x00', '\x00'] ++
    List.replicate 122 'a' ++
    [b, Char.ofNat (122 + (roleByte r).toNat), '\x00', '\x00', '\x00'] ++
    List.replicate (122 + (roleByte r).toNat) 'a')

lemma turnBytes_idReadAsTurns (r : Role) :
    turnBytes ⟨r, "", some (idReadAsTurns r)⟩ = (turnsReadFromId r).flatMap turnBytes := by
  simp only [turnBytes, turnsReadFromId, idReadAsTurns, lengthPrefixed, utf8_ofList,
    List.flatMap_cons, List.flatMap_nil]
  cases r <;> decide +kernel

/-- A prefix without a system prompt, with the given turns. -/
def bare (turns : List Turn) : Prefix := ⟨none, ⟨0⟩, ⟨0⟩, turns⟩

lemma bare_conforms {A : Role → Bool → Prop} {turns : List Turn} (h : ∀ t ∈ turns, Carried A t) :
    (bare turns).Conforms A where
  sysText := show (utf8 "").length < 2 ^ 32 by decide
  content t ht := (h t ht).content
  toolCallId t ht := (h t ht).toolCallId
  delimited := not_earlyIn_of_notMem (b := 0) List.not_mem_nil
  shapes t ht := (h t ht).shape

lemma carried_idReadAsTurns {A : Role → Bool → Prop} {r : Role} (h : A r true) :
    Carried A ⟨r, "", some (idReadAsTurns r)⟩ where
  content := show (utf8 "").length < 2 ^ 32 by decide
  toolCallId tcid htcid := by
    cases htcid
    apply length_utf8_lt
    simp only [List.length_append, List.length_cons, List.length_nil, List.length_replicate]
    cases r <;> decide
  shape := h

lemma carried_turnsReadFromId {A : Role → Bool → Prop} {r : Role} (h : A r false) :
    ∀ t ∈ turnsReadFromId r, Carried A t := by
  have hcontent : ∀ n < 2 ^ 30,
      (utf8 (String.ofList (List.replicate n 'a'))).length < 2 ^ 32 := fun n hn =>
    length_utf8_lt (List.length_replicate.trans_lt hn)
  have hlen : ∀ t ∈ turnsReadFromId r, (utf8 t.content).length < 2 ^ 32 := by
    rw [turnsReadFromId]
    simp only [List.forall_mem_cons]
    exact ⟨by decide, by decide, hcontent _ (by decide), hcontent _ (by cases r <;> decide),
      List.forall_mem_nil _⟩
  have hnone : ∀ t ∈ turnsReadFromId r, t.role = r ∧ t.toolCallId = none := by
    simp [turnsReadFromId]
  intro t ht
  obtain ⟨hrole, hid⟩ := hnone t ht
  exact ⟨hlen t ht, by simp [hid], by rw [hrole, hid]; exact h⟩

/-- Among prefixes whose system text does not hold the delimiter early, the canonical bytes tell
different prefixes apart exactly when no role occurs both with and without a `tool_call_id`. -/
theorem canonicalPrefixBytes_injective_iff (A : Role → Bool → Prop) :
    (∀ p q : Prefix, p.Conforms A → q.Conforms A → p.bytes = q.bytes → p.Same q) ↔
      ∀ r, ¬ (A r true ∧ A r false) := by
  constructor
  · rintro hinj r ⟨hid, hnone⟩
    have hsame := hinj (bare [⟨r, "", some (idReadAsTurns r)⟩]) (bare (turnsReadFromId r))
      (bare_conforms fun t ht => List.mem_singleton.mp ht ▸ carried_idReadAsTurns hid)
      (bare_conforms (carried_turnsReadFromId hnone)) (by
        rw [Prefix.bytes_eq, Prefix.bytes_eq]
        simp only [bare, List.flatMap_singleton, turnBytes_idReadAsTurns]
        rfl)
    exact absurd (congrArg List.length hsame.2.2.2) (by simp [bare, turnsReadFromId])
  · intro hA p q hp hq
    exact hp.same_of_bytes_eq hA hq

/-- A user turn whose one-character id reads as a second, empty user turn. -/
def userTurnWithId : Prefix := bare [⟨.user, "", some "\x00"⟩]

def twoUserTurns : Prefix := bare [.user "", .user ""]

/-- A user turn that carries the delimiters and the sampler bytes in its content. -/
def delimitersInTurn : Prefix :=
  bare [.user "\x00sampler\x00\x00\x00\x00\x00\x00\x00\x00\x00\x00turns\x00"]

/-- The same bytes, with everything up to the header of that turn as the system prompt. -/
def delimitersInSystemPrompt : Prefix :=
  ⟨some ("\x00sampler\x00\x00\x00\x00\x00\x00\x00\x00\x00\x00turns\x00" ++
    "\x01\x18\x00\x00\x00"), ⟨0⟩, ⟨0⟩, []⟩

/-- Prefixes that wire requests can carry share their canonical bytes: a tool id on an unexpected
turn reads as a further turn, and an unprefixed system prompt swallows the delimiters. -/
theorem canonicalPrefixBytes_collides :
    ¬ (∀ p q : Prefix, p.Wire → q.Wire → p.bytes = q.bytes → p.Same q) ∧
      (userTurnWithId.bytes = twoUserTurns.bytes ∧ ¬ userTurnWithId.Same twoUserTurns) ∧
      (delimitersInTurn.bytes = delimitersInSystemPrompt.bytes ∧
        ¬ delimitersInTurn.Same delimitersInSystemPrompt) := by
  have hid : userTurnWithId.bytes = twoUserTurns.bytes ∧ ¬ userTurnWithId.Same twoUserTurns := by
    decide
  refine ⟨fun h => hid.2 (h _ _ ⟨?_, ?_, ?_⟩ ⟨?_, ?_, ?_⟩ hid.1), hid, ?_⟩
  all_goals decide

end ModelApi.LiteRt
