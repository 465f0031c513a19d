import ModelApi.Lib.Stream
import ModelApi.Proto.Bincode

/-!
# Length-prefixed framing

Each message travels as `[u32 LE len][payload]`. The client and the server crates hold two
copies of the same codec; both are the definitions below at their own size cap.
-/

namespace ModelApi

open Lib

/-- The `io::ErrorKind`s the framing code produces or inspects. -/
inductive ErrorKind where
  | invalidData
  | unexpectedEof
  | interrupted
  | other
  deriving DecidableEq, Repr

/-- An `io::Error`: its kind and its text. -/
structure IoError where
  kind : ErrorKind
  message : String
  deriving DecidableEq, Repr

namespace Framed

variable {ε T : Type} [ToString ε]

/-- Encode a message as one frame, unless its payload is longer than the cap. -/
def encode (maxFrameBytes : ℕ) (serialize : T → List UInt8) (msg : T) :
    Except IoError (List UInt8) :=
  let payload := serialize msg
  if payload.length > maxFrameBytes then
    .error ⟨.invalidData, s!"frame {payload.length} > MAX_FRAME_BYTES {maxFrameBytes}"⟩
  else .ok (leBytes 4 payload.length ++ payload)

/-- Decode a single frame from the front of `buf`: the value and the number of bytes consumed,
or nothing when more bytes are needed. -/
def tryDecode (maxFrameBytes : ℕ) (deserialize : List UInt8 → Except ε T) :
    Next IoError T := fun buf =>
  if buf.length < 4 then .ok none
  else
    let len := ofLe (buf.take 4)
    if len > maxFrameBytes then
      .error ⟨.invalidData, s!"frame header {len} > MAX_FRAME_BYTES {maxFrameBytes}"⟩
    else if buf.length < 4 + len then .ok none
    else match deserialize ((buf.drop 4).take len) with
      | .error e  => .error ⟨.invalidData, s!"bincode decode: {e}"⟩
      | .ok value => .ok (some (value, 4 + len))

/-! ### What the decoder does on the frames the encoder produces -/

variable {maxFrameBytes : ℕ} {serialize : T → List UInt8} {deserialize : List UInt8 → Except ε T}

lemma encode_eq_ok {msg : T} {frame : List UInt8} :
    encode maxFrameBytes serialize msg = .ok frame ↔
      (serialize msg).length ≤ maxFrameBytes ∧
        frame = leBytes 4 (serialize msg).length ++ serialize msg := by
  simp only [encode]
  split_ifs with h
  · simp only [false_iff, not_and]
    omega
  · simp only [Except.ok.injEq, eq_comm, not_lt.mp h, true_and]

/-- The encoder fails exactly on payloads longer than the cap. -/
lemma encode_fails_iff {msg : T} :
    (∃ e, encode maxFrameBytes serialize msg = .error e) ↔
      maxFrameBytes < (serialize msg).length := by
  simp only [encode]
  split_ifs with h <;> simp <;> omega

lemma tryDecode_nil : tryDecode maxFrameBytes deserialize [] = .ok none := rfl

/-- A buffer that starts with a whole header. -/
lemma tryDecode_append {hdr : List UInt8} (hhdr : hdr.length = 4) (rest : List UInt8) :
    tryDecode maxFrameBytes deserialize (hdr ++ rest) =
      if ofLe hdr > maxFrameBytes then
        .error ⟨.invalidData, s!"frame header {ofLe hdr} > MAX_FRAME_BYTES {maxFrameBytes}"⟩
      else if rest.length < ofLe hdr then .ok none
      else match deserialize (rest.take (ofLe hdr)) with
        | .error e  => .error ⟨.invalidData, s!"bincode decode: {e}"⟩
        | .ok value => .ok (some (value, 4 + ofLe hdr)) := by
  have hlen : (hdr ++ rest).length = 4 + rest.length := by rw [List.length_append, hhdr]
  simp only [tryDecode, hlen, List.take_left' hhdr, List.drop_left' hhdr]
  rw [if_neg (by omega)]
  simp only [Nat.add_lt_add_iff_left]

/-- A buffer that starts with the header `n`. -/
lemma tryDecode_header {n : ℕ} (hn : n < 256 ^ 4) (rest : List UInt8) :
    tryDecode maxFrameBytes deserialize (leBytes 4 n ++ rest) =
      if n > maxFrameBytes then
        .error ⟨.invalidData, s!"frame header {n} > MAX_FRAME_BYTES {maxFrameBytes}"⟩
      else if rest.length < n then .ok none
      else match deserialize (rest.take n) with
        | .error e  => .error ⟨.invalidData, s!"bincode decode: {e}"⟩
        | .ok value => .ok (some (value, 4 + n)) := by
  rw [tryDecode_append (length_leBytes 4 n), ofLe_leBytes_of_lt hn]

/-- More bytes do not change what the decoder has decided. -/
lemma decided_tryDecode : Decided (tryDecode maxFrameBytes deserialize) := by
  intro buf more hne
  by_cases h4 : buf.length < 4
  · exact absurd (if_pos h4) hne
  · have hhdr : (buf.take 4).length = 4 := by
      rw [List.length_take]
      omega
    have hbuf : buf = buf.take 4 ++ buf.drop 4 := (List.take_append_drop 4 buf).symm
    rw [hbuf] at hne ⊢
    rw [List.append_assoc]
    rw [tryDecode_append hhdr] at hne ⊢
    rw [tryDecode_append hhdr]
    by_cases hmax : ofLe (buf.take 4) > maxFrameBytes
    · rw [if_pos hmax, if_pos hmax]
    · rw [if_neg hmax] at hne
      rw [if_neg hmax, if_neg hmax]
      by_cases hshort : (buf.drop 4).length < ofLe (buf.take 4)
      · exact absurd (if_pos hshort) hne
      · rw [if_neg hshort, if_neg (by rw [List.length_append]; omega),
          List.take_append_of_le_length (not_lt.mp hshort)]

/-- The decoder refuses a header on sight exactly when the encoder would refuse the payload. -/
lemma tryDecode_header_fails_iff {n : ℕ} (h0 : 0 < n) (hn : n < 256 ^ 4) :
    (∃ e, tryDecode maxFrameBytes deserialize (leBytes 4 n) = .error e) ↔ maxFrameBytes < n := by
  have h : tryDecode maxFrameBytes deserialize (leBytes 4 n ++ []) = _ := tryDecode_header hn []
  rw [List.append_nil] at h
  rw [h]
  split_ifs with h1 h2 <;> simp_all

/-- A frame is decoded in front of any further bytes, and none of its strict prefixes decides
anything. -/
lemma frameOf_encode (hcap : maxFrameBytes < 256 ^ 4) {msg : T} {frame : List UInt8}
    (hser : deserialize (serialize msg) = .ok msg)
    (h : encode maxFrameBytes serialize msg = .ok frame) :
    FrameOf (tryDecode maxFrameBytes deserialize) frame msg := by
  obtain ⟨hle, rfl⟩ := encode_eq_ok.mp h
  have hn : (serialize msg).length < 256 ^ 4 := by omega
  have h4 : (leBytes 4 (serialize msg).length).length = 4 := length_leBytes 4 _
  refine ⟨List.append_ne_nil_of_left_ne_nil (by simp [leBytes]) _, fun rest => ?_,
    fun p hp hne => ?_⟩
  · rw [List.append_assoc, tryDecode_header hn, if_neg (by omega),
      if_neg (by rw [List.length_append]; omega), List.take_left' rfl, hser,
      List.length_append, h4]
  · have hlt : p.length < 4 + (serialize msg).length := by
      have := hp.length_le
      rw [List.length_append, h4] at this
      refine lt_of_le_of_ne this fun hc => hne (hp.eq_of_length ?_)
      rw [hc, List.length_append, h4]
    by_cases hp4 : p.length < 4
    · rw [tryDecode, if_pos hp4]
    · -- the prefix holds the whole header and part of the payload
      obtain ⟨q, rfl⟩ : ∃ q, p = leBytes 4 (serialize msg).length ++ q := by
        have := List.prefix_of_prefix_length_le (List.prefix_append _ _) hp (by rw [h4]; omega)
        exact this.imp fun q hq => hq.symm
      rw [List.length_append, h4] at hlt
      rw [tryDecode_header hn, if_neg (by omega), if_pos (by omega)]

/-! ### Round trip of a stream of frames -/

/-- What the two ends of a connection need of a codec for messages of type `T`. -/
structure RoundTrip (maxFrameBytes : ℕ) (serialize : T → List UInt8)
    (encode : T → Except IoError (List UInt8)) (tryDecode : Next IoError T) : Prop where
  /-- Messages whose payloads fit are all framed, and the concatenated frames, in any
  fragmentation, come back as the same messages with nothing left over. -/
  received : ∀ msgs : List T, (∀ msg ∈ msgs, (serialize msg).length ≤ maxFrameBytes) →
    ∃ frames, msgs.mapM encode = .ok frames ∧
      ∀ frags, frags.flatten = frames.flatten → receive tryDecode [] frags = .ok (msgs, [])
  /-- A strict prefix of a frame is neither an error nor a value. -/
  strict_prefix : ∀ (msg : T) (frame p : List UInt8), encode msg = .ok frame →
    p <+: frame → p ≠ frame → tryDecode p = .ok none
  /-- Encoding fails exactly above the cap. -/
  encode_fails : ∀ msg : T, (∃ e, encode msg = .error e) ↔ maxFrameBytes < (serialize msg).length
  /-- A header is refused on sight exactly above the same cap. -/
  header_fails : ∀ n, 0 < n → n < 256 ^ 4 →
    ((∃ e, tryDecode (leBytes 4 n) = .error e) ↔ maxFrameBytes < n)

/-- Messages that fit are framed one by one. -/
lemma mapM_encode_eq_ok (hcap : maxFrameBytes < 256 ^ 4)
    (hser : ∀ msg, (serialize msg).length ≤ maxFrameBytes → deserialize (serialize msg) = .ok msg)
    (msgs : List T) (hfit : ∀ msg ∈ msgs, (serialize msg).length ≤ maxFrameBytes) :
    ∃ frames, msgs.mapM (encode maxFrameBytes serialize) = .ok frames ∧
      FramesOf (tryDecode maxFrameBytes deserialize) frames msgs := by
  induction msgs with
  | nil => exact ⟨[], rfl, .nil⟩
  | cons msg msgs ih =>
    have hmsg := hfit msg List.mem_cons_self
    have henc : encode maxFrameBytes serialize msg = .ok _ := encode_eq_ok.mpr ⟨hmsg, rfl⟩
    obtain ⟨frames, hframes, hof⟩ := ih fun m hm => hfit m (List.mem_cons_of_mem _ hm)
    refine ⟨_ :: frames, ?_, .cons (frameOf_encode hcap (hser msg hmsg) henc) hof⟩
    rw [List.mapM_cons, henc, hframes]
    rfl

lemma roundTrip (hcap : maxFrameBytes < 256 ^ 4)
    (hser : ∀ msg, (serialize msg).length ≤ maxFrameBytes → deserialize (serialize msg) = .ok msg) :
    RoundTrip maxFrameBytes serialize (encode maxFrameBytes serialize)
      (tryDecode maxFrameBytes deserialize) where
  received msgs hfit := by
    obtain ⟨frames, hframes, hof⟩ := mapM_encode_eq_ok hcap hser msgs hfit
    refine ⟨frames, hframes, fun frags hfrags => ?_⟩
    have hpending : Pending frames [] := by
      cases hof with
      | nil => rfl
      | cons h _ => exact ⟨List.nil_prefix, h.ne_nil.symm⟩
    exact receive_frames tryDecode_nil hof [] frags hfrags hpending
  strict_prefix msg frame p h :=
    (frameOf_encode hcap (hser msg (encode_eq_ok.mp h).1) h).strict p
  encode_fails _ := encode_fails_iff
  header_fails _ := tryDecode_header_fails_iff

end Framed

namespace Bincode

/-- `bincode::serialize`. -/
def serialize {α : Type} (c : Format α) (a : α) : List UInt8 := c.encode a

/-- `bincode::deserialize`, which ignores bytes after the value. -/
def deserialize {α : Type} (c : Format α) (bs : List UInt8) : Except BincodeError α :=
  (c.decode bs).map Prod.fst

lemma deserialize_serialize {α : Type} (c : Format α) {a : α}
    (h : (serialize c a).length < 2 ^ 64) : deserialize c (serialize c a) = .ok a := by
  have := c.decode_encode a [] h
  rw [List.append_nil] at this
  rw [deserialize, serialize, this]
  rfl

end Bincode

/-! ### The two copies of the codec -/

variable [ToString BincodeError] {T : Type}

namespace Client.Framed

def MAX_FRAME_BYTES : ℕ := 64 * 1024 * 1024

def encode (c : Bincode.Format T) : T → Except IoError (List UInt8) :=
  ModelApi.Framed.encode MAX_FRAME_BYTES (Bincode.serialize c)

def tryDecode (c : Bincode.Format T) : Next IoError T :=
  ModelApi.Framed.tryDecode MAX_FRAME_BYTES (Bincode.deserialize c)

end Client.Framed

namespace Server.Framed

def MAX_FRAME_BYTES : ℕ := 64 * 1024 * 1024

def encode (c : Bincode.Format T) : T → Except IoError (List UInt8) :=
  ModelApi.Framed.encode MAX_FRAME_BYTES (Bincode.serialize c)

def tryDecode (c : Bincode.Format T) : Next IoError T :=
  ModelApi.Framed.tryDecode MAX_FRAME_BYTES (Bincode.deserialize c)

end Server.Framed

lemma Client.Framed.roundTrip (c : Bincode.Format T) :
    Framed.RoundTrip MAX_FRAME_BYTES (Bincode.serialize c) (encode c) (tryDecode c) :=
  ModelApi.Framed.roundTrip (by decide) fun _ h =>
    Bincode.deserialize_serialize c (h.trans_lt (by decide))

lemma Server.Framed.roundTrip (c : Bincode.Format T) :
    Framed.RoundTrip MAX_FRAME_BYTES (Bincode.serialize c) (encode c) (tryDecode c) :=
  ModelApi.Framed.roundTrip (by decide) fun _ h =>
    Bincode.deserialize_serialize c (h.trans_lt (by decide))

/-- Both copies of the codec carry both envelopes: every list of messages that fit survives
framing, any fragmentation and incremental decoding. -/
theorem frame_stream_round_trip :
    (Framed.RoundTrip Client.Framed.MAX_FRAME_BYTES (Bincode.serialize ClientMessage.format)
        (Client.Framed.encode ClientMessage.format)
        (Client.Framed.tryDecode ClientMessage.format) ∧
      Framed.RoundTrip Client.Framed.MAX_FRAME_BYTES (Bincode.serialize ServerMessage.format)
        (Client.Framed.encode ServerMessage.format)
        (Client.Framed.tryDecode ServerMessage.format)) ∧
    (Framed.RoundTrip Server.Framed.MAX_FRAME_BYTES (Bincode.serialize ClientMessage.format)
        (Server.Framed.encode ClientMessage.format)
        (Server.Framed.tryDecode ClientMessage.format) ∧
      Framed.RoundTrip Server.Framed.MAX_FRAME_BYTES (Bincode.serialize ServerMessage.format)
        (Server.Framed.encode ServerMessage.format)
        (Server.Framed.tryDecode ServerMessage.format)) :=
  ⟨⟨Client.Framed.roundTrip _, Client.Framed.roundTrip _⟩,
    Server.Framed.roundTrip _, Server.Framed.roundTrip _⟩

end ModelApi
