import ModelApi.Lib.Source
import ModelApi.Proto.Framed

/-!
# Reading one frame asynchronously

`read_frame_async` over a byte source, of which the client and the server crates hold a copy each.
-/

namespace ModelApi

open Lib

namespace Framed

variable {ε T : Type} [ToString ε]

def unexpectedEof : IoError := ⟨.unexpectedEof, "unexpected end of file"⟩

/-- The asynchronous `read_exact` retries nothing. -/
abbrev readExact (n : ℕ) (src : Source IoError) :
    Option (Except IoError (List UInt8) × Source IoError) :=
  Source.readExact (fun _ => false) unexpectedEof n src.chunks src.eof

/-- Read one frame. Without a header there is no frame. The call has no result while it waits for
more bytes. -/
def readFrameAsync (maxFrameBytes : ℕ) (deserialize : List UInt8 → Except ε T)
    (src : Source IoError) : Option (Except IoError (Option T) × Source IoError) :=
  match src.read 1 with
  | none                    => none
  | some (.error e, src)    => some (.error e, src)
  | some (.ok [], src)      => some (.ok none, src)
  -- a buffer of one byte receives no more
  | some (.ok (b :: _), src) =>
    match readExact 3 src with
    | none                    => none
    | some (.error e, src)    => some (.error e, src)
    | some (.ok tail, src)    =>
      let len := ofLe (b :: tail)
      if len > maxFrameBytes then
        some (.error ⟨.invalidData, s!"frame header {len} > MAX_FRAME_BYTES {maxFrameBytes}"⟩, src)
      else
        match readExact len src with
        | none                    => none
        | some (.error e, src)    => some (.error e, src)
        | some (.ok payload, src) =>
          match deserialize payload with
          | .error e  => some (.error ⟨.invalidData, s!"bincode decode: {e}"⟩, src)
          | .ok value => some (.ok (some value), src)

end Framed

variable {ε T : Type} [ToString ε]

def Client.Framed.readFrameAsync (deserialize : List UInt8 → Except ε T) :
    Source IoError → Option (Except IoError (Option T) × Source IoError) :=
  ModelApi.Framed.readFrameAsync MAX_FRAME_BYTES deserialize

def Server.Framed.readFrameAsync (deserialize : List UInt8 → Except ε T) :
    Source IoError → Option (Except IoError (Option T) × Source IoError) :=
  ModelApi.Framed.readFrameAsync MAX_FRAME_BYTES deserialize

/-! ### What is left over -/

namespace Framed

variable {maxFrameBytes : ℕ} {deserialize : List UInt8 → Except ε T}

/-- A header above the cap. -/
def Oversized (maxFrameBytes : ℕ) (rest : List UInt8) : Prop :=
  4 ≤ rest.length ∧ maxFrameBytes < ofLe (rest.take 4)

/-- Bytes in front of the end of the file that start a frame and do not hold one. -/
inductive Broken (maxFrameBytes : ℕ) (deserialize : List UInt8 → Except ε T)
    (rest : List UInt8) : Prop where
  | truncatedHeader (hne : rest ≠ []) (h : rest.length < 4)
  | oversized (h : Oversized maxFrameBytes rest)
  | truncatedPayload (h4 : 4 ≤ rest.length) (hmax : ofLe (rest.take 4) ≤ maxFrameBytes)
      (h : rest.length < 4 + ofLe (rest.take 4))
  | rejected (e : ε) (hmax : ofLe (rest.take 4) ≤ maxFrameBytes)
      (h4 : 4 + ofLe (rest.take 4) ≤ rest.length)
      (h : deserialize ((rest.drop 4).take (ofLe (rest.take 4))) = .error e)

omit [ToString ε] in
lemma Broken.ne_nil {rest : List UInt8} (h : Broken maxFrameBytes deserialize rest) :
    rest ≠ [] := by
  rintro rfl
  cases h with
  | truncatedHeader hne h => exact hne rfl
  | oversized h => exact absurd h.1 (by simp)
  | truncatedPayload h4 hmax h => exact absurd h4 (by simp)
  | rejected e hmax h4 h => exact absurd (le_trans (Nat.le_add_right 4 _) h4) (by simp)

/-- The incremental decoder finds no frame in them. -/
lemma Broken.tryDecode_ne {rest : List UInt8} (h : Broken maxFrameBytes deserialize rest)
    (value : T) (n : ℕ) : tryDecode maxFrameBytes deserialize rest ≠ .ok (some (value, n)) := by
  intro heq
  rw [tryDecode] at heq
  cases h with
  | truncatedHeader hne h =>
    rw [if_pos h] at heq
    cases heq
  | oversized h =>
    rw [if_neg (not_lt.mpr h.1)] at heq
    simp only [gt_iff_lt, if_pos h.2] at heq
    cases heq
  | truncatedPayload h4 hmax h =>
    rw [if_neg (not_lt.mpr h4)] at heq
    simp only [gt_iff_lt, if_neg (not_lt.mpr hmax), if_pos h] at heq
    cases heq
  | rejected e hmax h4 h =>
    have h4' : ¬ rest.length < 4 := by omega
    rw [if_neg h4'] at heq
    simp only [gt_iff_lt, if_neg (not_lt.mpr hmax), if_neg (not_lt.mpr h4), h] at heq
    cases heq

lemma tryDecode_eq_some {buf : List UInt8} {value : T} {n : ℕ}
    (h : tryDecode maxFrameBytes deserialize buf = .ok (some (value, n))) :
    0 < n ∧ n ≤ buf.length := by
  simp only [tryDecode] at h
  split_ifs at h with h4 hmax hlen
  · cases h
  · cases h
  · cases hvalue : deserialize ((buf.drop 4).take (ofLe (buf.take 4))) with
    | error e =>
      rw [hvalue] at h
      cases h
    | ok value' =>
      rw [hvalue] at h
      cases h
      omega

end Framed
end ModelApi
