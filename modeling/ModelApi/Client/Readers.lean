import ModelApi.Client.ReadFrame
import ModelApi.Proto.ReadFrameAsync

/-!
# All frame readers agree

The asynchronous readers of both crates and the synchronous one read what the incremental decoder
finds in all the bytes at once, however these are delivered.
-/

namespace ModelApi

open Lib Framed

/-! ### Reading on and on -/

variable {E T : Type}

/-- A call that reads one frame. -/
abbrev Reader (E T : Type) := Source IoError → Option (Except E (Option T) × Source IoError)

/-- Read until there is no frame or an error: the messages, how it ended, and the source then. -/
def readAll (reader : Reader E T) :
    ℕ → Source IoError → Option (List T × Except E Unit × Source IoError)
  | 0, _          => none
  | fuel + 1, src =>
    match reader src with
    | none                      => none
    | some (.error e, src)      => some ([], .error e, src)
    | some (.ok none, src)      => some ([], .ok (), src)
    | some (.ok (some v), src)  => (readAll reader fuel src).map fun r => (v :: r.1, r.2)

/-- Decode until there is no frame or an error: the messages, and the bytes left over. -/
def decodeAll (next : Next IoError T) (buf : List UInt8) : List T × List UInt8 :=
  match next buf with
  | .ok (some (v, n)) =>
    if _h : 0 < n ∧ buf ≠ [] then
      let (vs, rest) := decodeAll next (buf.drop n)
      (v :: vs, rest)
    else ([v], buf)
  | .ok none | .error _ => ([], buf)
termination_by buf.length
decreasing_by
  have hpos := List.length_pos_iff.mpr _h.2
  simp only [List.length_drop]
  omega

/-- What a reader makes of a source: it reads the messages that the decoder finds in all the bytes,
ends without an error where nothing is left over, and with an error where what is left over is
broken. Of an oversized frame it reads the header. -/
def Follows (maxFrameBytes : ℕ) (deserialize : List UInt8 → Except BincodeError T)
    [ToString BincodeError] (reader : Reader E T) (src : Source IoError) : Prop :=
  ∃ ending src', let (messages, rest) := decodeAll (tryDecode maxFrameBytes deserialize) src.bytes
    (∀ fuel, src.bytes.length < fuel → readAll reader fuel src = some (messages, ending, src')) ∧
    (ending = .ok () ↔ rest = []) ∧
    ((∃ e, ending = .error e) ↔ Broken maxFrameBytes deserialize rest) ∧
    (Oversized maxFrameBytes rest → src'.bytes = rest.drop 4)

lemma decodeAll_of_no_frame {next : Next IoError T} {buf : List UInt8}
    (h : ∀ v n, next buf ≠ .ok (some (v, n))) : decodeAll next buf = ([], buf) := by
  rw [decodeAll]
  cases hnext : next buf with
  | error e => rfl
  | ok found =>
    cases found with
    | none => rfl
    | some found => exact absurd hnext (h found.1 found.2)

lemma decodeAll_of_frame {next : Next IoError T} {buf : List UInt8} {v : T} {n : ℕ}
    (h : next buf = .ok (some (v, n))) (hpos : 0 < n) (hne : buf ≠ []) :
    decodeAll next buf =
      (v :: (decodeAll next (buf.drop n)).1, (decodeAll next (buf.drop n)).2) := by
  rw [decodeAll, h]
  simp only [dif_pos (And.intro hpos hne)]

/-! ### One frame -/

variable [ToString BincodeError] {maxFrameBytes : ℕ}
  {deserialize : List UInt8 → Except BincodeError T} {reader : Reader E T} {src : Source IoError}

/-- What one call may return on a source without errors. -/
inductive OneFrame (maxFrameBytes : ℕ) (deserialize : List UInt8 → Except BincodeError T)
    (src : Source IoError) : Option (Except E (Option T) × Source IoError) → Prop where
  | eof (h : src.bytes = []) : OneFrame maxFrameBytes deserialize src (some (.ok none, src))
  | frame {v : T} {n : ℕ} {src' : Source IoError}
      (h : tryDecode maxFrameBytes deserialize src.bytes = .ok (some (v, n))) (hplain : src'.Plain)
      (hdrop : src'.bytes = src.bytes.drop n) :
      OneFrame maxFrameBytes deserialize src (some (.ok (some v), src'))
  | broken {e : E} {src' : Source IoError} (h : Broken maxFrameBytes deserialize src.bytes)
      (hhead : Oversized maxFrameBytes src.bytes → src'.bytes = src.bytes.drop 4) :
      OneFrame maxFrameBytes deserialize src (some (.error e, src'))

/-- A reader whose calls read one frame each follows the decoder. -/
lemma follows_of_oneFrame
    (h : ∀ src, src.Plain → OneFrame maxFrameBytes deserialize src (reader src))
    (hsrc : src.Plain) : Follows maxFrameBytes deserialize reader src := by
  induction hn : src.bytes.length using Nat.strong_induction_on generalizing src with
  | _ n ih =>
    have hone := h src hsrc
    cases hread : reader src with
    | none =>
      rw [hread] at hone
      cases hone
    | some result =>
      rw [hread] at hone
      cases hone with
      | eof hnil =>
        have hdecode : decodeAll (tryDecode maxFrameBytes deserialize) src.bytes = ([], []) := by
          rw [hnil]
          exact decodeAll_of_no_frame fun v n => by rw [tryDecode_nil]; nofun
        refine ⟨.ok (), src, ?_⟩
        rw [hdecode]
        refine ⟨fun fuel hfuel => ?_, ⟨fun _ => rfl, fun _ => rfl⟩, ⟨?_, ?_⟩, ?_⟩
        · obtain ⟨fuel, rfl⟩ := Nat.exists_eq_succ_of_ne_zero (Nat.ne_zero_of_lt hfuel)
          rw [readAll, hread]
        · rintro ⟨e, he⟩
          cases he
        · exact fun hbroken => absurd rfl hbroken.ne_nil
        · exact fun hover => absurd hover.1 (by simp)
      | @frame v n' src' hnext hplain hdrop =>
        obtain ⟨hpos, hle⟩ := tryDecode_eq_some hnext
        have hne : src.bytes ≠ [] := List.length_pos_iff.mp (by omega)
        have hlen : src'.bytes.length = src.bytes.length - n' := by
          rw [hdrop, List.length_drop]
        obtain ⟨ending, src'', hall⟩ := ih src'.bytes.length (by omega) hplain rfl
        refine ⟨ending, src'', ?_⟩
        rw [decodeAll_of_frame hnext hpos hne, ← hdrop]
        obtain ⟨hread', hrest⟩ := hall
        refine ⟨fun fuel hfuel => ?_, hrest⟩
        obtain ⟨fuel, rfl⟩ := Nat.exists_eq_succ_of_ne_zero (Nat.ne_zero_of_lt hfuel)
        rw [readAll, hread]
        simp only [hread' fuel (by omega), Option.map_some]
      | @broken e src' hbroken hhead =>
        refine ⟨.error e, src', ?_⟩
        rw [decodeAll_of_no_frame hbroken.tryDecode_ne]
        refine ⟨fun fuel hfuel => ?_, ⟨?_, ?_⟩, ⟨fun _ => hbroken, fun _ => ⟨e, rfl⟩⟩, hhead⟩
        · obtain ⟨fuel, rfl⟩ := Nat.exists_eq_succ_of_ne_zero (Nat.ne_zero_of_lt hfuel)
          rw [readAll, hread]
        · intro he
          cases he
        · exact fun hnil => absurd hnil hbroken.ne_nil

/-! ### The readers -/

/-- What the first byte and the rest of a header are read as. -/
inductive Header (retry : IoError → Bool) (eof : IoError) (src : Source IoError) : Prop where
  | none (h : src.bytes = []) (hread : src.read 1 = some (.ok [], src))
  | short (b : UInt8) (src₁ : Source IoError) (hread : src.read 1 = some (.ok [b], src₁))
      (htail : Source.readExact retry eof 3 src₁.chunks src₁.eof = some (.error eof, ⟨[], true⟩))
      (hne : src.bytes ≠ []) (hlen : src.bytes.length < 4)
  | whole (b : UInt8) (tail : List UInt8) (src₁ src₂ : Source IoError)
      (hread : src.read 1 = some (.ok [b], src₁))
      (htail : Source.readExact retry eof 3 src₁.chunks src₁.eof = some (.ok tail, src₂))
      (hlen : (b :: tail).length = 4) (hplain : src₂.Plain)
      (hbytes : src.bytes = (b :: tail) ++ src₂.bytes)

omit [ToString BincodeError] in
lemma header_of_plain (retry : IoError → Bool) (eof : IoError) (hsrc : src.Plain) :
    Header retry eof src := by
  rcases hsrc.read_one with ⟨hnil, hread⟩ | ⟨b, src₁, hread, hplain₁, hbytes₁⟩
  · exact .none hnil hread
  · rcases hplain₁.readExact retry eof 3 with ⟨hle, src₂, htail, hplain₂, hbytes₂⟩ | ⟨hlt, htail⟩
    · have hlen : (b :: src₁.bytes.take 3).length = 4 := by
        rw [List.length_cons, List.length_take_of_le hle]
      have hbytes : src.bytes = (b :: src₁.bytes.take 3) ++ src₂.bytes := by
        rw [hbytes₁, hbytes₂, List.cons_append, List.take_append_drop]
      exact .whole b _ src₁ src₂ hread htail hlen hplain₂ hbytes
    · refine .short b src₁ hread htail ?_ ?_
      · rw [hbytes₁]
        exact List.cons_ne_nil _ _
      · rw [hbytes₁, List.length_cons]
        omega

section Whole

variable {hdr : List UInt8} (hlen : hdr.length = 4) {src₂ : Source IoError}
  (hbytes : src.bytes = hdr ++ src₂.bytes)

include hlen hbytes

lemma OneFrame.oversized (hmax : ofLe hdr > maxFrameBytes) (e : E) :
    OneFrame maxFrameBytes deserialize src (some (.error e, src₂)) := by
  refine .broken (.oversized ⟨?_, ?_⟩) fun _ => ?_
  · rw [hbytes, List.length_append, hlen]
    exact Nat.le_add_right 4 _
  · rwa [hbytes, List.take_left' hlen]
  · rw [hbytes, List.drop_left' hlen]

lemma OneFrame.truncated (hmax : ¬ ofLe hdr > maxFrameBytes) (hshort : src₂.bytes.length < ofLe hdr)
    (e : E) : OneFrame maxFrameBytes deserialize src (some (.error e, ⟨[], true⟩)) := by
  have htake : src.bytes.take 4 = hdr := by rw [hbytes, List.take_left' hlen]
  have hlength : src.bytes.length = 4 + src₂.bytes.length := by
    rw [hbytes, List.length_append, hlen]
  refine .broken (.truncatedPayload ?_ ?_ ?_) fun hover => ?_
  · omega
  · rw [htake]
    exact not_lt.mp hmax
  · rw [htake]
    omega
  · rw [Oversized, htake] at hover
    exact absurd hover.2 hmax

lemma OneFrame.rejected (hmax : ¬ ofLe hdr > maxFrameBytes) (hle : ofLe hdr ≤ src₂.bytes.length)
    {e' : BincodeError} (hvalue : deserialize (src₂.bytes.take (ofLe hdr)) = .error e') (e : E)
    (src₃ : Source IoError) : OneFrame maxFrameBytes deserialize src (some (.error e, src₃)) := by
  have htake : src.bytes.take 4 = hdr := by rw [hbytes, List.take_left' hlen]
  have hlength : src.bytes.length = 4 + src₂.bytes.length := by
    rw [hbytes, List.length_append, hlen]
  refine .broken (.rejected e' ?_ ?_ ?_) fun hover => ?_
  · rw [htake]
    exact not_lt.mp hmax
  · rw [htake]
    omega
  · rw [htake, hbytes, List.drop_left' hlen]
    exact hvalue
  · rw [Oversized, htake] at hover
    exact absurd hover.2 hmax

lemma OneFrame.decoded (hmax : ¬ ofLe hdr > maxFrameBytes) (hle : ofLe hdr ≤ src₂.bytes.length)
    {value : T} (hvalue : deserialize (src₂.bytes.take (ofLe hdr)) = .ok value)
    {src₃ : Source IoError} (hplain : src₃.Plain)
    (hdrop : src₃.bytes = src₂.bytes.drop (ofLe hdr)) :
    OneFrame (E := E) maxFrameBytes deserialize src (some (.ok (some value), src₃)) := by
  have hnext : tryDecode maxFrameBytes deserialize src.bytes =
      .ok (some (value, 4 + ofLe hdr)) := by
    rw [hbytes, tryDecode_append hlen, if_neg hmax, if_neg (not_lt.mpr hle), hvalue]
  refine .frame hnext hplain ?_
  rw [hdrop, hbytes, ← List.drop_drop, List.drop_left' hlen]

end Whole

omit [ToString BincodeError] in
lemma OneFrame.shortHeader (hne : src.bytes ≠ []) (hlen : src.bytes.length < 4) (e : E)
    [ToString BincodeError] :
    OneFrame maxFrameBytes deserialize src (some (.error e, ⟨[], true⟩)) := by
  refine .broken (.truncatedHeader hne hlen) fun hover => ?_
  exact absurd hover.1 (not_le.mpr hlen)

lemma oneFrame_readFrameAsync (hsrc : src.Plain) :
    OneFrame maxFrameBytes deserialize src (readFrameAsync maxFrameBytes deserialize src) := by
  rw [readFrameAsync]
  cases header_of_plain (fun _ => false) unexpectedEof hsrc with
  | none hnil hread =>
    simp only [hread]
    exact .eof hnil
  | short b src₁ hread htail hne hlen =>
    simp only [hread, htail]
    exact .shortHeader hne hlen _
  | whole b tail src₁ src₂ hread htail hlen hplain hbytes =>
    simp only [hread, htail]
    split_ifs with hmax
    · exact .oversized hlen hbytes hmax _
    · rcases hplain.readExact (fun _ => false) unexpectedEof (ofLe (b :: tail)) with
        ⟨hle, src₃, hpayload, hplain₃, hdrop⟩ | ⟨hlt, hpayload⟩
      · simp only [hpayload]
        cases hvalue : deserialize (src₂.bytes.take (ofLe (b :: tail))) with
        | error e => exact .rejected hlen hbytes hmax hle hvalue _ _
        | ok value => exact .decoded hlen hbytes hmax hle hvalue hplain₃ hdrop
      · simp only [hpayload]
        exact .truncated hlen hbytes hmax hlt _

lemma oneFrame_readFrame (hsrc : src.Plain) :
    OneFrame Client.Framed.MAX_FRAME_BYTES deserialize src (Client.readFrame deserialize src) := by
  rw [Client.readFrame]
  cases header_of_plain Client.retryRead Client.failedToFill hsrc with
  | none hnil hread =>
    simp only [hread]
    exact .eof hnil
  | short b src₁ hread htail hne hlen =>
    simp only [hread, htail]
    exact .shortHeader hne hlen _
  | whole b tail src₁ src₂ hread htail hlen hplain hbytes =>
    simp only [hread, htail]
    split_ifs with hmax
    · exact .oversized hlen hbytes hmax _
    · rcases hplain.readExact Client.retryRead Client.failedToFill (ofLe (b :: tail)) with
        ⟨hle, src₃, hpayload, hplain₃, hdrop⟩ | ⟨hlt, hpayload⟩
      · simp only [hpayload]
        cases hvalue : deserialize (src₂.bytes.take (ofLe (b :: tail))) with
        | error e => exact .rejected hlen hbytes hmax hle hvalue _ _
        | ok value => exact .decoded hlen hbytes hmax hle hvalue hplain₃ hdrop
      · simp only [hpayload]
        exact .truncated hlen hbytes hmax hlt _

/-- On every text of bytes, delivered in any runs, the three readers follow the one incremental
decoder. -/
theorem readers_agree (deserialize : List UInt8 → Except BincodeError T)
    (runs : List (UInt8 × List UInt8)) :
    tryDecode Server.Framed.MAX_FRAME_BYTES deserialize =
        tryDecode Client.Framed.MAX_FRAME_BYTES deserialize ∧
      Follows Client.Framed.MAX_FRAME_BYTES deserialize
        (Client.Framed.readFrameAsync deserialize) (Source.ofRuns runs) ∧
      Follows Client.Framed.MAX_FRAME_BYTES deserialize
        (Server.Framed.readFrameAsync deserialize) (Source.ofRuns runs) ∧
      Follows Client.Framed.MAX_FRAME_BYTES deserialize
        (Client.readFrame deserialize) (Source.ofRuns runs) := by
  have hplain : (Source.ofRuns runs : Source IoError).Plain := Source.plain_ofRuns runs
  refine ⟨rfl, ?_, ?_, ?_⟩
  · exact follows_of_oneFrame (fun _ hsrc => oneFrame_readFrameAsync hsrc) hplain
  · exact follows_of_oneFrame (fun _ hsrc => oneFrame_readFrameAsync hsrc) hplain
  · exact follows_of_oneFrame (fun _ hsrc => oneFrame_readFrame hsrc) hplain

end ModelApi
