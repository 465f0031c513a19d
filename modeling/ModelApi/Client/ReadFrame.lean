import ModelApi.Lib.Source
import ModelApi.Proto.Framed

/-!
# Reading one frame synchronously

`read_frame` of the synchronous client over a byte source. Where no error intervenes it reads
what the incremental decoder finds in the bytes ahead.
-/

namespace ModelApi.Client

open Lib

/-- Errors the client can return. -/
inductive ClientError where
  | io (context : String)
  | protocolVersion (server client : UInt32)
  | server (message : String)
  | disconnected
  deriving DecidableEq, Repr

/-- `read_exact` goes on after an interrupted read. -/
def retryRead (e : IoError) : Bool := e.kind = .interrupted

def failedToFill : IoError := ⟨.unexpectedEof, "failed to fill whole buffer"⟩

/-- `read_exact` on a source of this crate. -/
abbrev readExact (n : ℕ) (src : Source IoError) :
    Option (Except IoError (List UInt8) × Source IoError) :=
  Source.readExact retryRead failedToFill n src.chunks src.eof

variable {T : Type} [ToString BincodeError]

/-- Read one frame. Without a header there is no frame; whatever else goes wrong is an error. The
call has no result while it waits for more bytes. -/
def readFrame (deserialize : List UInt8 → Except BincodeError T) (src : Source IoError) :
    Option (Except ClientError (Option T) × Source IoError) :=
  match src.read 1 with
  | none                => none
  | some (.error e, src) =>
    if e.kind = .unexpectedEof then some (.ok none, src)
    else some (.error (.io s!"read header byte 0: {e.message}"), src)
  | some (.ok [], src)  => some (.ok none, src)
  | some (.ok [b], src) =>
    match readExact 3 src with
    | none                    => none
    | some (.error e, src)    => some (.error (.io s!"read header tail: {e.message}"), src)
    | some (.ok tail, src)    =>
      let len := ofLe (b :: tail)
      if len > Framed.MAX_FRAME_BYTES then
        some (.error (.io s!"frame header {len} > MAX_FRAME_BYTES {Framed.MAX_FRAME_BYTES}"), src)
      else
        match readExact len src with
        | none                    => none
        | some (.error e, src)    => some (.error (.io s!"read payload: {e.message}"), src)
        | some (.ok payload, src) =>
          match deserialize payload with
          | .error e  => some (.error (.io s!"bincode decode: {e}"), src)
          | .ok value => some (.ok (some value), src)
  | some (.ok bs, src)  => some (.error (.io s!"partial header read({bs.length})"), src)

/-- No read call fails, but for interruptions behind the first byte. -/
def CleanRead (src : Source IoError) : Prop :=
  (∀ e, src.chunks.head? ≠ some (.fault e)) ∧ Source.Clean retryRead src.chunks

/-- What `read_frame` may return on a source without errors, in terms of the bytes ahead. -/
inductive ReadsAs (next : Next IoError T) (src : Source IoError) :
    Except ClientError (Option T) → Source IoError → Prop where
  /-- the file ended before the frame -/
  | eof (h : src.bytes = []) (heof : src.eof = true) : ReadsAs next src (.ok none) ⟨[], true⟩
  /-- the frame that the incremental decoder finds -/
  | frame {value : T} {n : ℕ} {src' : Source IoError}
      (h : next src.bytes = .ok (some (value, n))) (hn : n ≤ src.bytes.length)
      (hdrop : src.bytes.drop n = src'.bytes) :
      ReadsAs next src (.ok (some value)) src'
  /-- the incremental decoder refuses the frame too -/
  | refused {e : ClientError} {e' : IoError} {src' : Source IoError}
      (h : next src.bytes = .error e') : ReadsAs next src (.error e) src'
  /-- the file ended inside the frame -/
  | truncated {e : ClientError} (h : next src.bytes = .ok none) (hne : src.bytes ≠ [])
      (heof : src.eof = true) : ReadsAs next src (.error e) ⟨[], true⟩

lemma readFrame_readsAs {deserialize : List UInt8 → Except BincodeError T}
    {src src' : Source IoError} {result : Except ClientError (Option T)} (hclean : CleanRead src)
    (h : readFrame deserialize src = some (result, src')) :
    ReadsAs (ModelApi.Framed.tryDecode Framed.MAX_FRAME_BYTES deserialize) src result src' := by
  obtain ⟨chunks, eof⟩ := src
  obtain ⟨hhead, hclean⟩ := hclean
  cases chunks with
  | nil =>
    cases eof with
    | false => cases h
    | true =>
      cases h
      exact .eof rfl rfl
  | cons c chunks =>
    cases c with
    | fault e => exact absurd rfl (hhead e)
    | data b bs =>
      simp only [readFrame, Source.read, List.take_succ_cons, List.take_zero] at h
      set src₁ := Source.unread ((b :: bs).drop 1) ⟨chunks, eof⟩ with hsrc₁
      have hclean₁ : Source.Clean retryRead src₁.chunks := hclean.tail.unread
      have heof₁ : src₁.eof = eof := Source.eof_unread ..
      have hbytes₁ : Source.bytes ⟨.data b bs :: chunks, eof⟩ = b :: src₁.bytes := by
        simp [hsrc₁]
      rcases htail : readExact 3 src₁ with _ | ⟨tail | tail, src₂⟩
      · simp [htail] at h
      · -- the file ends inside the header
        simp only [htail, Option.some.injEq, Prod.mk.injEq] at h
        obtain ⟨rfl, rfl⟩ := h
        obtain ⟨-, heof, rfl, hlen⟩ := Source.readExact_error hclean₁ htail
        have hshort : src₁.bytes.length < 3 := hlen
        refine .truncated ?_ (by simp) (heof₁ ▸ heof)
        rw [hbytes₁, ModelApi.Framed.tryDecode, if_pos]
        simp only [List.length_cons]
        omega
      · simp only [htail] at h
        obtain ⟨hbytes₂, hlen, heof₂⟩ := Source.readExact_ok htail
        have hclean₂ := Source.readExact_clean hclean₁ htail
        have hhdr : (b :: tail).length = 4 := by simp [hlen]
        have hbytes : Source.bytes ⟨.data b bs :: chunks, eof⟩ = (b :: tail) ++ src₂.bytes := by
          rw [hbytes₁, hbytes₂, List.cons_append]
        have hnext : ModelApi.Framed.tryDecode Framed.MAX_FRAME_BYTES deserialize
            (b :: tail ++ src₂.bytes) = _ := ModelApi.Framed.tryDecode_append hhdr src₂.bytes
        rw [← hbytes] at hnext
        split_ifs at h with hmax
        · cases h
          exact .refused (hnext.trans (if_pos hmax))
        · rw [if_neg hmax] at hnext
          rcases hpayload : readExact (ofLe (b :: tail)) src₂ with _ | ⟨payload | payload, src₃⟩
          · simp [hpayload] at h
          · -- the file ends inside the payload
            simp only [hpayload] at h
            cases h
            obtain ⟨-, heof, rfl, hshort⟩ := Source.readExact_error hclean₂ hpayload
            refine .truncated (hnext.trans (if_pos hshort)) (by simp) ?_
            exact heof₁ ▸ heof₂ ▸ heof
          · simp only [hpayload] at h
            obtain ⟨hbytes₃, hlen₃, -⟩ := Source.readExact_ok hpayload
            have hle : ¬ src₂.bytes.length < ofLe (b :: tail) := by
              rw [show src₂.bytes = payload ++ src₃.bytes from hbytes₃, List.length_append, hlen₃]
              omega
            rw [if_neg hle, show src₂.bytes = payload ++ src₃.bytes from hbytes₃,
              List.take_left' hlen₃] at hnext
            cases hvalue : deserialize payload with
            | error e =>
              simp only [hvalue] at h hnext
              cases h
              exact .refused hnext
            | ok value =>
              simp only [hvalue] at h hnext
              cases h
              have hall : Source.bytes ⟨.data b bs :: chunks, eof⟩ =
                  (b :: tail ++ payload) ++ src'.bytes := by
                rw [hbytes, show src₂.bytes = payload ++ src'.bytes from hbytes₃, List.append_assoc]
              have hn : (b :: tail ++ payload).length = 4 + ofLe (b :: tail) := by
                rw [List.length_append, hhdr, hlen₃]
              refine .frame hnext ?_ ?_
              · rw [hall, List.length_append, hn]
                omega
              · rw [hall, List.drop_left' hn]

end ModelApi.Client
