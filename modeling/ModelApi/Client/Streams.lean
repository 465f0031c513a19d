import ModelApi.Client.Readers
import ModelApi.Proto.Strict

/-!
# The messages in a stream of bytes

Which messages the frame readers take from any bytes at all, and from the frames of messages when
the connection breaks somewhere in between.
-/

namespace ModelApi

open Lib Framed

variable {E T : Type} {maxFrameBytes : ℕ} {c : Bincode.Format T} {buf rest : List UInt8}
  {messages : List T}

/-! ### Any bytes -/

/-- The bytes are accepted frames of the messages, and then bytes with which no such frame
begins. -/
def Spells (maxFrameBytes : ℕ) (c : Bincode.Format T) (buf : List UInt8) (messages : List T)
    (rest : List UInt8) : Prop :=
  ∃ frames, List.Forall₂ (PaddedFrame maxFrameBytes c) frames messages ∧
    buf = frames.flatten ++ rest ∧
    ∀ frame msg more, PaddedFrame maxFrameBytes c frame msg → rest ≠ frame ++ more

lemma Spells.cons {frame : List UInt8} {msg : T} (hframe : PaddedFrame maxFrameBytes c frame msg)
    (h : Spells maxFrameBytes c buf messages rest) :
    Spells maxFrameBytes c (frame ++ buf) (msg :: messages) rest := by
  obtain ⟨frames, hframes, rfl, hrest⟩ := h
  refine ⟨frame :: frames, .cons hframe hframes, ?_, hrest⟩
  rw [List.flatten_cons, List.append_assoc]

variable [ToString BincodeError]

lemma spells_decodeAll (hcap : maxFrameBytes < 256 ^ 4) (hc : c.Strict) (buf : List UInt8) :
    let found := decodeAll (tryDecode maxFrameBytes (Bincode.deserialize c)) buf
    Spells maxFrameBytes c buf found.1 found.2 := by
  induction hn : buf.length using Nat.strong_induction_on generalizing buf with
  | _ n ih =>
    by_cases hnone : ∀ msg k,
        tryDecode maxFrameBytes (Bincode.deserialize c) buf ≠ .ok (some (msg, k))
    · rw [decodeAll_of_no_frame hnone]
      refine ⟨[], .nil, rfl, fun frame msg more hframe heq => ?_⟩
      exact hnone msg frame.length ((tryDecode_iff hcap hc).mpr ⟨frame, more, hframe, heq, rfl⟩)
    · push Not at hnone
      obtain ⟨msg, k, hnext⟩ := hnone
      obtain ⟨hpos, hle⟩ := tryDecode_eq_some hnext
      have hne : buf ≠ [] := List.length_pos_iff.mp (by omega)
      obtain ⟨frame, more, hframe, rfl, rfl⟩ := (tryDecode_iff hcap hc).mp hnext
      have hmore := ih more.length (by rw [List.length_append] at hn; omega) more rfl
      rw [decodeAll_of_frame hnext hpos hne, List.drop_left]
      exact hmore.cons hframe

/-- There is one way to read the bytes, and the decoder finds it. -/
lemma decodeAll_eq_of_spells (hcap : maxFrameBytes < 256 ^ 4) (hc : c.Strict)
    (h : Spells maxFrameBytes c buf messages rest) :
    decodeAll (tryDecode maxFrameBytes (Bincode.deserialize c)) buf = (messages, rest) := by
  obtain ⟨frames, hframes, rfl, hrest⟩ := h
  induction hframes with
  | nil =>
    refine decodeAll_of_no_frame fun msg k hnext => ?_
    obtain ⟨frame, more, hframe, heq, -⟩ := (tryDecode_iff hcap hc).mp hnext
    exact hrest frame msg more hframe heq
  | @cons frame msg frames messages hframe hframes ih =>
    have hpos := hframe.length_pos
    have hnext := (tryDecode_iff hcap hc).mpr ⟨frame, frames.flatten ++ rest, hframe, rfl, rfl⟩
    rw [List.flatten_cons, List.append_assoc, decodeAll_of_frame hnext hpos, List.drop_left, ih]
    exact List.append_ne_nil_of_left_ne_nil (List.length_pos_iff.mp hpos) _

/-- The reader takes from the source the messages that its bytes spell, in the one way there is,
and ends without an error where nothing is left over. -/
def TakesFrames (maxFrameBytes : ℕ) (c : Bincode.Format T) (reader : Reader E T)
    (src : Source IoError) : Prop :=
  ∃ messages rest ending src', (∀ fuel, src.bytes.length < fuel →
      readAll reader fuel src = some (messages, ending, src')) ∧
    (∀ messages' rest', Spells maxFrameBytes c src.bytes messages' rest' ↔
      messages' = messages ∧ rest' = rest) ∧
    (ending = .ok () ↔ rest = [])

lemma takesFrames_of_oneFrame {reader : Reader E T} {src : Source IoError}
    (hcap : maxFrameBytes < 256 ^ 4) (hc : c.Strict)
    (h : ∀ src, src.Plain →
      OneFrame maxFrameBytes (Bincode.deserialize c) src (reader src)) (hsrc : src.Plain) :
    TakesFrames maxFrameBytes c reader src := by
  obtain ⟨ending, src', hread, hend, -⟩ := follows_of_oneFrame h hsrc
  refine ⟨_, _, ending, src', hread, fun messages' rest' => ⟨fun hspells => ?_, ?_⟩, hend⟩
  · rw [decodeAll_eq_of_spells hcap hc hspells]
    exact ⟨rfl, rfl⟩
  · rintro ⟨rfl, rfl⟩
    exact spells_decodeAll hcap hc src.bytes

/-- Whatever the bytes and however they are delivered, each side takes from them exactly the
messages whose frames they begin with, and these frames contain the messages byte for byte. -/
theorem readers_take_frames (runs : List (UInt8 × List UInt8)) :
    TakesFrames Server.Framed.MAX_FRAME_BYTES ClientMessage.format
        (Server.Framed.readFrameAsync (Bincode.deserialize ClientMessage.format))
        (Source.ofRuns runs) ∧
      TakesFrames Client.Framed.MAX_FRAME_BYTES ServerMessage.format
        (Client.Framed.readFrameAsync (Bincode.deserialize ServerMessage.format))
        (Source.ofRuns runs) ∧
      TakesFrames Client.Framed.MAX_FRAME_BYTES ServerMessage.format
        (Client.readFrame (Bincode.deserialize ServerMessage.format)) (Source.ofRuns runs) := by
  have hplain : (Source.ofRuns runs : Source IoError).Plain := Source.plain_ofRuns runs
  refine ⟨?_, ?_, ?_⟩
  · exact takesFrames_of_oneFrame (by decide) ClientMessage.format_strict
      (fun _ hsrc => oneFrame_readFrameAsync hsrc) hplain
  · exact takesFrames_of_oneFrame (by decide) ServerMessage.format_strict
      (fun _ hsrc => oneFrame_readFrameAsync hsrc) hplain
  · exact takesFrames_of_oneFrame (by decide) ServerMessage.format_strict
      (fun _ hsrc => oneFrame_readFrame hsrc) hplain

/-! ### A connection that breaks -/

omit [ToString BincodeError] in
/-- What the decoder makes of the first bytes of some frames. -/
lemma decodeAll_prefix {next : Next IoError T} (hnil : next [] = .ok none)
    {frames : List (List UInt8)} (hframes : FramesOf next frames messages)
    (hbuf : buf <+: frames.flatten) :
    ∃ k ≤ messages.length, ∃ cut, buf = (frames.take k).flatten ++ cut ∧
      Pending (frames.drop k) cut ∧ decodeAll next buf = (messages.take k, cut) := by
  induction hframes generalizing buf with
  | nil =>
    obtain rfl := List.prefix_nil.mp hbuf
    exact ⟨0, le_rfl, [], rfl, rfl, decodeAll_of_no_frame fun v n => by rw [hnil]; nofun⟩
  | @cons frame msg frames messages hframe hframes ih =>
    rw [List.flatten_cons] at hbuf
    by_cases hlen : buf.length < frame.length
    · -- the connection broke inside this frame
      have hpre : buf <+: frame :=
        List.prefix_of_prefix_length_le hbuf (List.prefix_append _ _) hlen.le
      have hne : buf ≠ frame := fun heq => by simp [heq] at hlen
      refine ⟨0, Nat.zero_le _, buf, rfl, ⟨hpre, hne⟩, decodeAll_of_no_frame fun v n => ?_⟩
      rw [hframe.strict buf hpre hne]
      nofun
    · obtain ⟨buf, rfl⟩ : frame <+: buf :=
        List.prefix_of_prefix_length_le (List.prefix_append _ _) hbuf (not_lt.mp hlen)
      obtain ⟨k, hk, cut, rfl, hcut, hdecode⟩ :=
        ih ((List.prefix_append_right_inj frame).mp hbuf)
      refine ⟨k + 1, Nat.succ_le_succ hk, cut, ?_, hcut, ?_⟩
      · rw [List.take_succ_cons, List.flatten_cons, List.append_assoc]
      · rw [decodeAll_of_frame (hframe.whole _) (List.length_pos_iff.mpr hframe.ne_nil)
          (List.append_ne_nil_of_left_ne_nil hframe.ne_nil _), List.drop_left, hdecode]
        rfl

/-- The source holds the frames of the first messages and possibly the start of one more frame.
The reader takes these messages, and ends with an error exactly where there is such a start. -/
def TakesWhole (frames : List (List UInt8)) (messages : List T) (reader : Reader E T)
    (src : Source IoError) : Prop :=
  ∃ k ≤ messages.length, ∃ cut ending src', src.bytes = (frames.take k).flatten ++ cut ∧
    Pending (frames.drop k) cut ∧
    (∀ fuel, src.bytes.length < fuel →
      readAll reader fuel src = some (messages.take k, ending, src')) ∧
    ((∃ e, ending = .error e) ↔ cut ≠ [])

lemma framesOf_of_mapM (hcap : maxFrameBytes < 256 ^ 4) {frames : List (List UInt8)}
    (h : messages.mapM (encode maxFrameBytes (Bincode.serialize c)) = .ok frames) :
    FramesOf (tryDecode maxFrameBytes (Bincode.deserialize c)) frames messages := by
  induction messages generalizing frames with
  | nil =>
    cases h
    exact .nil
  | cons msg messages ih =>
    rw [List.mapM_cons] at h
    obtain ⟨frame, hframe, h⟩ := Codec.bind_eq_ok.mp h
    obtain ⟨frames', hframes, h⟩ := Codec.bind_eq_ok.mp h
    cases h
    have hfit := (encode_eq_ok.mp hframe).1
    refine .cons (frameOf_encode hcap ?_ hframe) (ih hframes)
    exact Bincode.deserialize_serialize c (by omega)

lemma takesWhole_of_oneFrame {reader : Reader E T} {src : Source IoError}
    {frames : List (List UInt8)} (hcap : maxFrameBytes < 256 ^ 4)
    (h : ∀ src, src.Plain →
      OneFrame maxFrameBytes (Bincode.deserialize c) src (reader src)) (hsrc : src.Plain)
    (hencode : messages.mapM (encode maxFrameBytes (Bincode.serialize c)) = .ok frames)
    (hbytes : src.bytes <+: frames.flatten) : TakesWhole frames messages reader src := by
  obtain ⟨k, hk, cut, hsplit, hcut, hdecode⟩ :=
    decodeAll_prefix tryDecode_nil (framesOf_of_mapM hcap hencode) hbytes
  obtain ⟨ending, src', hfollows⟩ := follows_of_oneFrame h hsrc
  rw [hdecode] at hfollows
  obtain ⟨hread, hend, -⟩ := hfollows
  refine ⟨k, hk, cut, ending, src', hsplit, hcut, hread, ?_⟩
  cases ending with
  | ok u =>
    refine ⟨?_, fun hne => absurd (hend.mp rfl) hne⟩
    rintro ⟨e, he⟩
    cases he
  | error e =>
    refine ⟨fun _ hnil => ?_, fun _ => ⟨e, rfl⟩⟩
    cases hend.mpr hnil

/-- A sender writes the frames of some messages and the connection breaks at an arbitrary place.
However the bytes before it are delivered, the other side takes exactly the messages whose frames
got through whole, and notices the break exactly where it is inside a frame. -/
theorem whole_frames_of_broken_stream (runs : List (UInt8 × List UInt8)) :
    (∀ messages frames, messages.mapM (Client.Framed.encode ClientMessage.format) = .ok frames →
      (Source.ofRuns runs : Source IoError).bytes <+: frames.flatten →
      TakesWhole frames messages
        (Server.Framed.readFrameAsync (Bincode.deserialize ClientMessage.format))
        (Source.ofRuns runs)) ∧
    ∀ messages frames, messages.mapM (Server.Framed.encode ServerMessage.format) = .ok frames →
      (Source.ofRuns runs : Source IoError).bytes <+: frames.flatten →
      TakesWhole frames messages
          (Client.Framed.readFrameAsync (Bincode.deserialize ServerMessage.format))
          (Source.ofRuns runs) ∧
        TakesWhole frames messages
          (Client.readFrame (Bincode.deserialize ServerMessage.format)) (Source.ofRuns runs) := by
  have hplain : (Source.ofRuns runs : Source IoError).Plain := Source.plain_ofRuns runs
  constructor
  · intro messages frames hencode hbytes
    exact takesWhole_of_oneFrame (by decide) (fun _ hsrc => oneFrame_readFrameAsync hsrc) hplain
      hencode hbytes
  · intro messages frames hencode hbytes
    constructor
    · exact takesWhole_of_oneFrame (by decide) (fun _ hsrc => oneFrame_readFrameAsync hsrc) hplain
        hencode hbytes
    · exact takesWhole_of_oneFrame (by decide) (fun _ hsrc => oneFrame_readFrame hsrc) hplain
        hencode hbytes

omit [ToString BincodeError] in
/-- A client asks to cancel and to shut down, and the second frame breaks off in its payload; a
server says goodbye, and nothing breaks. -/
theorem whole_frames_of_broken_stream_demo : ∃ _ : ToString BincodeError,
    TakesWhole [[4, 0, 0, 0, 2, 0, 0, 0], [4, 0, 0, 0, 3, 0, 0, 0]]
        [ClientMessage.cancel, ClientMessage.shutdown]
        (Server.Framed.readFrameAsync (Bincode.deserialize ClientMessage.format))
        (Source.ofRuns [(4, [0, 0]), (0, [2, 0, 0, 0, 4]), (0, [0, 0, 3])]) ∧
      TakesWhole [[4, 0, 0, 0, 5, 0, 0, 0]] [ServerMessage.goodbye]
        (Client.readFrame (Bincode.deserialize ServerMessage.format))
        (Source.ofRuns [(4, [0, 0, 0, 5]), (0, [0, 0])]) := by
  let text : ToString BincodeError := ⟨fun _ => "bincode error"⟩
  refine ⟨text, ?_, ?_⟩
  · exact (whole_frames_of_broken_stream _).1 _ _ rfl ⟨[0, 0, 0], rfl⟩
  · exact ((whole_frames_of_broken_stream _).2 _ _ rfl ⟨[], rfl⟩).2

end ModelApi
