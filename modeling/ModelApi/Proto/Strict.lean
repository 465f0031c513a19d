import ModelApi.Proto.Framed

/-!
# What the decoder accepts

The payload format leaves no freedom: what is decoded as a message begins with the encoding of
that message. A frame that is accepted holds these bytes and possibly more, which
`bincode::deserialize` ignores.
-/

namespace ModelApi

open Lib

/-! ### Payloads -/

namespace Bincode

lemma u32_strict : u32.Strict :=
  .fixed fun n hn => by
    rw [UInt32.toNat_ofNat', Nat.mod_eq_of_lt (hn.trans_eq (by norm_num))]

lemma u64_strict : u64.Strict :=
  .fixed fun n hn => by
    rw [UInt64.toNat_ofNat', Nat.mod_eq_of_lt (hn.trans_eq (by norm_num))]

lemma f32_strict : f32.Strict := u32_strict.imap fun _ => rfl

lemma bool_strict : bool.Strict := by
  intro bs b rest h
  cases bs with
  | nil => cases h
  | cons d bs =>
    simp only [bool] at h ⊢
    split_ifs at h with h0 h1
    · cases h
      rw [h0]
      rfl
    · cases h
      rw [h1]
      rfl

lemma option_strict {α : Type} {c : Format α} (hc : c.Strict) : (option c).Strict := by
  intro bs a rest h
  cases bs with
  | nil => cases h
  | cons d bs =>
    simp only [option] at h ⊢
    split_ifs at h with h0 h1
    · cases h
      rw [h0]
      rfl
    · obtain ⟨⟨a', bs'⟩, ha, h⟩ := Codec.bind_eq_ok.mp h
      cases h
      rw [h1, hc ha]
      rfl

lemma utf8_of_fromUTF8? {bs : List UInt8} {s : String}
    (h : String.fromUTF8? ⟨bs.toArray⟩ = some s) : utf8 s = bs := by
  rw [String.fromUTF8?] at h
  split at h
  · cases h
    rfl
  · cases h

lemma string_strict : string.Strict := by
  intro bs s rest h
  obtain ⟨⟨n, bs'⟩, hn, h⟩ := Codec.bind_eq_ok.mp h
  dsimp only at h
  split_ifs at h with hshort
  split at h
  · cases h
  · next s' hs =>
    cases h
    have hbytes := utf8_of_fromUTF8? hs
    have hcount : UInt64.ofNat (utf8 s).length = n := by
      rw [hbytes, List.length_take_of_le (not_lt.mp hshort), UInt64.ofNat_toNat]
    have hencode : string.encode s = u64.encode (UInt64.ofNat (utf8 s).length) ++ utf8 s := rfl
    rw [hencode, hcount, hbytes, u64_strict hn, List.append_assoc, List.take_append_drop]

lemma vec_strict {α : Type} {c : Format α} {hpos : ∀ a, c.encode a ≠ []} (hc : c.Strict) :
    (vec c hpos).Strict := .list u64_strict hc

/-- An enumeration is strict if the reader of each variant is. -/
lemma variants_strict {α : Type} {index : α → UInt32} {fields : α → List UInt8}
    {read : UInt32 → Option (List UInt8 → Except BincodeError (α × List UInt8))}
    {hread : ∀ (a : α) (rest : List UInt8), (fields a).length < 2 ^ 64 →
      ∃ r, read (index a) = some r ∧ r (fields a ++ rest) = .ok (a, rest)}
    (h : ∀ tag r bs a rest, read tag = some r → r bs = .ok (a, rest) →
      index a = tag ∧ bs = fields a ++ rest) :
    (variants index fields read hread).Strict := by
  intro bs a rest hdecode
  obtain ⟨⟨tag, bs'⟩, htag, hdecode⟩ := Codec.bind_eq_ok.mp hdecode
  dsimp only at hdecode
  split at hdecode
  · cases hdecode
  · next r hr =>
    obtain ⟨hindex, hfields⟩ := h tag r bs' a rest hr hdecode
    rw [u32_strict htag, hfields, ← hindex, ← List.append_assoc]
    rfl

end Bincode

open Bincode

lemma Role.format_strict : Role.format.Strict := by
  apply variants_strict
  intro tag r bs a rest hr h
  split at hr <;> cases hr <;> obtain ⟨_, rfl, hbs⟩ := Codec.Strict.unit.read h <;>
    exact ⟨rfl, hbs⟩

lemma Turn.format_strict : Turn.format.Strict :=
  (Role.format_strict.prod <| string_strict.prod <| option_strict string_strict).imap fun _ => rfl

lemma InferenceInput.format_strict : InferenceInput.format.Strict := by
  have haudio : ((vec f32 fun _ => by
      simp [f32, u32, Codec.imap, Codec.fixed, leBytes]).prod u32).Strict :=
    (vec_strict f32_strict).prod u32_strict
  have hturns : (vec Turn.format Turn.format_ne_nil).Strict := vec_strict Turn.format_strict
  unfold format
  refine variants_strict ?_
  intro tag r bs a rest hr h
  split at hr <;> cases hr
  · obtain ⟨_, rfl, hbs⟩ := string_strict.read h
    exact ⟨rfl, hbs⟩
  · obtain ⟨_, rfl, hbs⟩ := hturns.read h
    exact ⟨rfl, hbs⟩
  · obtain ⟨_, rfl, hbs⟩ := haudio.read h
    exact ⟨rfl, hbs⟩
  · obtain ⟨_, rfl, hbs⟩ := haudio.read h
    exact ⟨rfl, hbs⟩

lemma JsonMode.format_strict : JsonMode.format.Strict := by
  apply variants_strict
  intro tag r bs a rest hr h
  split at hr <;> cases hr <;> obtain ⟨_, rfl, hbs⟩ := Codec.Strict.unit.read h <;>
    exact ⟨rfl, hbs⟩

lemma ToolMode.format_strict : ToolMode.format.Strict := by
  apply variants_strict
  intro tag r bs a rest hr h
  split at hr <;> cases hr <;> obtain ⟨_, rfl, hbs⟩ := Codec.Strict.unit.read h <;>
    exact ⟨rfl, hbs⟩

lemma InferenceConfig.format_strict : InferenceConfig.format.Strict :=
  (bool_strict.prod <| JsonMode.format_strict.prod <| (option_strict f32_strict).prod <|
    (option_strict f32_strict).prod <| (option_strict f32_strict).prod <|
    (option_strict f32_strict).prod <| (option_strict u32_strict).prod <|
    (option_strict string_strict).prod <| ToolMode.format_strict.prod <|
    (option_strict u32_strict).prod bool_strict).imap fun _ => rfl

lemma ToolParam.format_strict : ToolParam.format.Strict :=
  (string_strict.prod <| string_strict.prod <| bool_strict.prod string_strict).imap fun _ => rfl

lemma ToolDef.format_strict : ToolDef.format.Strict :=
  (string_strict.prod <| string_strict.prod <| vec_strict ToolParam.format_strict).imap
    fun _ => rfl

lemma ToolCall.format_strict : ToolCall.format.Strict :=
  (string_strict.prod <| string_strict.prod string_strict).imap fun _ => rfl

lemma ToolResult.format_strict : ToolResult.format.Strict :=
  (string_strict.prod string_strict).imap fun _ => rfl

lemma SessionMode.format_strict : SessionMode.format.Strict := by
  apply variants_strict
  intro tag r bs a rest hr h
  split at hr <;> cases hr
  · obtain ⟨_, rfl, hbs⟩ := Codec.Strict.unit.read h
    exact ⟨rfl, hbs⟩
  · obtain ⟨_, rfl, hbs⟩ := string_strict.read h
    exact ⟨rfl, hbs⟩

lemma GpuRole.format_strict : GpuRole.format.Strict := by
  apply variants_strict
  intro tag r bs a rest hr h
  split at hr <;> cases hr <;> obtain ⟨_, rfl, hbs⟩ := Codec.Strict.unit.read h <;>
    exact ⟨rfl, hbs⟩

lemma InferenceRequest.format_strict : InferenceRequest.format.Strict :=
  (GpuRole.format_strict.prod <| InferenceInput.format_strict.prod <| u32_strict.prod <|
    SessionMode.format_strict.prod <| InferenceConfig.format_strict.prod <|
    (vec_strict ToolDef.format_strict).prod <| (vec_strict ToolResult.format_strict).prod <|
    u64_strict.prod <| bool_strict.prod bool_strict).imap fun _ => rfl

lemma StreamChunk.format_strict : StreamChunk.format.Strict :=
  (string_strict.prod <| (option_strict string_strict).prod <| option_strict string_strict).imap
    fun _ => rfl

lemma ProgressEvent.format_strict : ProgressEvent.format.Strict :=
  (string_strict.prod <| (option_strict string_strict).prod <| option_strict string_strict).imap
    fun _ => rfl

lemma SessionReplacement.format_strict : SessionReplacement.format.Strict :=
  (string_strict.prod string_strict).imap fun _ => rfl

lemma InferenceResponse.format_strict : InferenceResponse.format.Strict :=
  (string_strict.prod <| (option_strict string_strict).prod <|
    (option_strict string_strict).prod <| (vec_strict string_strict).prod <|
    (vec_strict ToolCall.format_strict).prod <|
    option_strict SessionReplacement.format_strict).imap fun _ => rfl

lemma ClientMessage.format_strict : ClientMessage.format.Strict := by
  apply variants_strict
  intro tag r bs a rest hr h
  split at hr <;> cases hr
  · obtain ⟨_, rfl, hbs⟩ := u32_strict.read h
    exact ⟨rfl, hbs⟩
  · obtain ⟨_, rfl, hbs⟩ := InferenceRequest.format_strict.read h
    exact ⟨rfl, hbs⟩
  · obtain ⟨_, rfl, hbs⟩ := Codec.Strict.unit.read h
    exact ⟨rfl, hbs⟩
  · obtain ⟨_, rfl, hbs⟩ := Codec.Strict.unit.read h
    exact ⟨rfl, hbs⟩

lemma ServerMessage.format_strict : ServerMessage.format.Strict := by
  have hhello := u32_strict.prod (string_strict.prod (option_strict u32_strict))
  unfold format
  refine variants_strict ?_
  intro tag r bs a rest hr h
  split at hr <;> cases hr
  · obtain ⟨_, rfl, hbs⟩ := hhello.read h
    exact ⟨rfl, hbs⟩
  · obtain ⟨_, rfl, hbs⟩ := ProgressEvent.format_strict.read h
    exact ⟨rfl, hbs⟩
  · obtain ⟨_, rfl, hbs⟩ := StreamChunk.format_strict.read h
    exact ⟨rfl, hbs⟩
  · obtain ⟨_, rfl, hbs⟩ := InferenceResponse.format_strict.read h
    exact ⟨rfl, hbs⟩
  · obtain ⟨_, rfl, hbs⟩ := string_strict.read h
    exact ⟨rfl, hbs⟩
  · obtain ⟨_, rfl, hbs⟩ := Codec.Strict.unit.read h
    exact ⟨rfl, hbs⟩

/-! ### Frames -/

namespace Framed

variable {T : Type} {maxFrameBytes : ℕ} {c : Bincode.Format T} {frame buf : List UInt8} {msg : T}

/-- A frame of `msg` whose payload goes on with bytes that belong to no field. -/
def PaddedFrame (maxFrameBytes : ℕ) (c : Bincode.Format T) (frame : List UInt8) (msg : T) : Prop :=
  ∃ unused, (Bincode.serialize c msg ++ unused).length ≤ maxFrameBytes ∧
    frame = leBytes 4 (Bincode.serialize c msg ++ unused).length ++
      (Bincode.serialize c msg ++ unused)

lemma PaddedFrame.of_encode (h : encode maxFrameBytes (Bincode.serialize c) msg = .ok frame) :
    PaddedFrame maxFrameBytes c frame msg := by
  obtain ⟨hle, rfl⟩ := encode_eq_ok.mp h
  exact ⟨[], by rwa [List.append_nil], by rw [List.append_nil]⟩

lemma PaddedFrame.length_pos (h : PaddedFrame maxFrameBytes c frame msg) : 0 < frame.length := by
  obtain ⟨unused, -, rfl⟩ := h
  rw [List.length_append, length_leBytes]
  omega

lemma deserialize_serialize_append (hfit : (Bincode.serialize c msg).length < 2 ^ 64)
    (unused : List UInt8) :
    Bincode.deserialize c (Bincode.serialize c msg ++ unused) = .ok msg := by
  rw [Bincode.deserialize, Bincode.serialize, c.decode_encode msg unused hfit]
  rfl

lemma deserialize_eq_ok (hc : c.Strict) (h : Bincode.deserialize c buf = .ok msg) :
    ∃ unused, buf = Bincode.serialize c msg ++ unused := by
  rw [Bincode.deserialize] at h
  cases hdecode : c.decode buf with
  | error e =>
    rw [hdecode] at h
    cases h
  | ok decoded =>
    obtain ⟨msg', unused⟩ := decoded
    rw [hdecode] at h
    cases h
    exact ⟨unused, hc hdecode⟩

variable [ToString BincodeError]

/-- The decoder reports exactly the messages whose frames the buffer begins with. -/
lemma tryDecode_iff (hcap : maxFrameBytes < 256 ^ 4) (hc : c.Strict) {n : ℕ} :
    tryDecode maxFrameBytes (Bincode.deserialize c) buf = .ok (some (msg, n)) ↔
      ∃ frame rest, PaddedFrame maxFrameBytes c frame msg ∧ buf = frame ++ rest ∧
        frame.length = n := by
  constructor
  · intro h
    simp only [tryDecode] at h
    split_ifs at h with h4 hmax hlen
    · cases h
    · cases h
    · cases hvalue : Bincode.deserialize c ((buf.drop 4).take (ofLe (buf.take 4))) with
      | error e =>
        rw [hvalue] at h
        cases h
      | ok value =>
        rw [hvalue] at h
        cases h
        obtain ⟨unused, hpayload⟩ := deserialize_eq_ok hc hvalue
        have hhdr : (buf.take 4).length = 4 := List.length_take_of_le (not_lt.mp h4)
        have hcount : (Bincode.serialize c msg ++ unused).length = ofLe (buf.take 4) := by
          rw [← hpayload, List.length_take_of_le]
          rw [List.length_drop]
          omega
        have hheader : leBytes 4 (ofLe (buf.take 4)) = buf.take 4 := by
          conv_rhs => rw [← leBytes_ofLe (buf.take 4), hhdr]
        refine ⟨_, (buf.drop 4).drop (ofLe (buf.take 4)), ⟨unused, ?_, rfl⟩, ?_, ?_⟩
        · rw [hcount]
          exact not_lt.mp hmax
        · rw [hcount, hheader, ← hpayload, List.append_assoc, List.take_append_drop,
            List.take_append_drop]
        · rw [List.length_append, length_leBytes, hcount]
  · rintro ⟨frame, rest, ⟨unused, hle, rfl⟩, rfl, rfl⟩
    set payload := Bincode.serialize c msg ++ unused with hpayload
    have hfit : (Bincode.serialize c msg).length < 2 ^ 64 := by
      have : (Bincode.serialize c msg).length ≤ payload.length := by
        rw [hpayload, List.length_append]
        exact Nat.le_add_right _ _
      omega
    have hlength : payload.length < 256 ^ 4 := by omega
    rw [List.append_assoc, tryDecode_header hlength, if_neg (not_lt.mpr hle),
      if_neg (by rw [List.length_append]; omega), List.take_left' rfl, hpayload,
      deserialize_serialize_append hfit]
    simp only [List.length_append, length_leBytes]

end Framed

end ModelApi
