import ModelApi.Link.Basic

/-!
# From the client to the handler

What `read_frame_async` returns as a message is the first frame on its way to the handler, also
where read calls fail. So the messages that the handler has read and those on their way are the
messages that the client has written.
-/

namespace ModelApi

open Lib

namespace Framed

variable {ε T : Type} [ToString ε] {maxFrameBytes : ℕ} {deserialize : List UInt8 → Except ε T}
  {src src' : Source IoError}

omit [ToString ε] in
lemma read_one_eq_ok {bs : List UInt8} (h : src.read 1 = some (.ok bs, src')) :
    (bs = [] ∧ src.bytes = [] ∧ src.eof = true ∧ src' = src) ∨
      ∃ b, bs = [b] ∧ src.bytes = b :: src'.bytes := by
  obtain ⟨chunks, eof⟩ := src
  cases chunks with
  | nil =>
    cases eof with
    | false => cases h
    | true =>
      cases h
      exact .inl ⟨rfl, rfl, rfl, rfl⟩
  | cons c chunks =>
    cases c with
    | fault e => cases h
    | data b bs =>
      cases h
      exact .inr ⟨b, rfl, by simp⟩

/-- A header and a payload that were read make a frame in front of the bytes ahead. -/
lemma tryDecode_of_readExact {retry retry' : IoError → Bool} {eof eof' : IoError} {b : UInt8}
    {tail payload : List UInt8} {src₁ src₂ : Source IoError} {value : T}
    (hbytes : src.bytes = b :: src₁.bytes)
    (htail : Source.readExact retry eof 3 src₁.chunks src₁.eof = some (.ok tail, src₂))
    (hmax : ¬ ofLe (b :: tail) > maxFrameBytes)
    (hpayload : Source.readExact retry' eof' (ofLe (b :: tail)) src₂.chunks src₂.eof =
      some (.ok payload, src')) (hvalue : deserialize payload = .ok value) :
    ∃ n, tryDecode maxFrameBytes deserialize src.bytes = .ok (some (value, n)) ∧
      n ≤ src.bytes.length ∧ src'.bytes = src.bytes.drop n := by
  obtain ⟨hbytes₁, hlen₁, -⟩ := Source.readExact_ok htail
  obtain ⟨hbytes₂, hlen₂, -⟩ := Source.readExact_ok hpayload
  have hhdr : (b :: tail).length = 4 := by rw [List.length_cons, hlen₁]
  have hall : src.bytes = (b :: tail) ++ (payload ++ src'.bytes) := by
    rw [hbytes, show src₁.bytes = tail ++ src₂.bytes from hbytes₁,
      show src₂.bytes = payload ++ src'.bytes from hbytes₂, List.cons_append]
  refine ⟨4 + ofLe (b :: tail), ?_, ?_, ?_⟩
  · rw [hall, tryDecode_append hhdr, if_neg hmax,
      if_neg (by rw [List.length_append, hlen₂]; omega), List.take_left' hlen₂, hvalue]
  · rw [hall, List.length_append, List.length_append, hhdr, hlen₂]
    omega
  · rw [hall, ← List.drop_drop, List.drop_left' hhdr, List.drop_left' hlen₂]

/-- A message is one that the incremental decoder finds in the bytes ahead. -/
lemma readFrameAsync_eq_message {value : T}
    (h : readFrameAsync maxFrameBytes deserialize src = some (.ok (some value), src')) :
    ∃ n, tryDecode maxFrameBytes deserialize src.bytes = .ok (some (value, n)) ∧
      n ≤ src.bytes.length ∧ src'.bytes = src.bytes.drop n := by
  rw [readFrameAsync] at h
  split at h
  · cases h
  · cases h
  · cases h
  · next b bs src₁ hfirst =>
    obtain ⟨hnil, -⟩ | ⟨b', hb, hbytes⟩ := read_one_eq_ok hfirst
    · cases hnil
    · cases hb
      split at h
      · cases h
      · cases h
      · next tail src₂ htail =>
        dsimp only at h
        split_ifs at h with hmax
        · cases h
        · split at h
          · cases h
          · cases h
          · next payload src₃ hpayload =>
            split at h
            · cases h
            · next value' hvalue =>
              cases h
              exact tryDecode_of_readExact hbytes htail hmax hpayload hvalue

/-- There is no frame only at the end of the file. -/
lemma readFrameAsync_eq_eof
    (h : readFrameAsync maxFrameBytes deserialize src = some (.ok none, src')) :
    src.bytes = [] ∧ src.eof = true := by
  rw [readFrameAsync] at h
  split at h
  · cases h
  · cases h
  · next src₁ hfirst =>
    obtain ⟨-, hbytes, heof, -⟩ | ⟨b, hb, -⟩ := read_one_eq_ok hfirst
    · exact ⟨hbytes, heof⟩
    · cases hb
  · split at h
    · cases h
    · cases h
    · dsimp only at h
      split_ifs at h
      · cases h
      · split at h
        · cases h
        · cases h
        · split at h <;> cases h

end Framed

namespace Link

variable [ToString BincodeError]

/-- The incremental decoder of the frames that the handler waits for. -/
abbrev clientNext : Next IoError ClientMessage :=
  Framed.tryDecode Server.Framed.MAX_FRAME_BYTES (Bincode.deserialize ClientMessage.format)

lemma frameOf_clientFrame {msg : ClientMessage} {frame : List UInt8}
    (h : Client.clientFrame msg = .ok frame) : FrameOf clientNext frame msg := by
  refine Framed.frameOf_encode (by decide) ?_ h
  apply Bincode.deserialize_serialize
  exact (Framed.encode_eq_ok.mp h).1.trans_lt (by decide)

/-- A message that the handler reads is the first on its way, and it finds the end of the stream
only where no message is on its way. -/
lemma State.Meets.read {s : State} {src src' : Source IoError} {rest : List UInt8}
    {later : List ClientMessage} (hmeets : s.Meets src rest)
    (hup : Carries clientNext s.up s.upClosed later)
    {found : Option ClientMessage} (hread : Server.Framed.readFrameAsync
      (Bincode.deserialize ClientMessage.format) src = some (.ok found, src')) :
    (∃ m later', found = some m ∧ later = m :: later' ∧
      Carries clientNext (src'.bytes ++ rest) s.upClosed later') ∨
    (found = none ∧ later = [] ∧ s.upClosed = true) := by
  rw [hmeets.bytes] at hup
  cases found with
  | none =>
    obtain ⟨hbytes, heof⟩ := Framed.readFrameAsync_eq_eof hread
    obtain ⟨hclosed, rfl⟩ := hmeets.eof heof
    rw [hbytes] at hup
    cases later with
    | nil => exact .inr ⟨rfl, rfl, hclosed⟩
    | cons m later =>
      obtain ⟨n, hnext, -⟩ := hup.next_cons
      cases hnext
  | some m =>
    obtain ⟨n, hnext, hn, hdrop⟩ := Framed.readFrameAsync_eq_message hread
    obtain ⟨later', rfl, hrest⟩ := hup.take Framed.decided_tryDecode hnext hn
    rw [← hdrop] at hrest
    exact .inl ⟨m, later', rfl, rfl, hrest⟩

end Link

end ModelApi
