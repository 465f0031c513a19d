import Mathlib

/-!
# Incremental decoding of a byte stream

An incremental decoder looks at the bytes received so far and either reports a value with the
number of bytes it takes, asks for more, or fails. `receive` feeds it fragments: each fragment
is appended to the buffer, and the decoder is called until it asks for more.

A list of frames is recovered whatever the fragmentation, as soon as every frame is decoded in
front of any further bytes and none of its strict prefixes decides anything.
-/

namespace ModelApi.Lib

variable {ε T : Type}

/-- What an incremental decoder reports: a value and the bytes it takes, or nothing yet. -/
abbrev Next (ε T : Type) := List UInt8 → Except ε (Option (T × ℕ))

/-- Call the decoder until it asks for more, dropping the consumed bytes each time. -/
def drain (next : Next ε T) (buf : List UInt8) : Except ε (List T × List UInt8) :=
  match next buf with
  | .error e          => .error e
  | .ok none          => .ok ([], buf)
  | .ok (some (v, n)) =>
    if _h : 0 < n ∧ buf ≠ [] then do
      let (vs, buf) ← drain next (buf.drop n)
      pure (v :: vs, buf)
    else .ok ([v], buf)
termination_by buf.length
decreasing_by
  have := List.length_pos_iff.mpr _h.2
  simp only [List.length_drop]
  omega

/-- Receive the fragments one after the other, starting with `buf` in the buffer. -/
def receive (next : Next ε T) (buf : List UInt8) :
    List (List UInt8) → Except ε (List T × List UInt8)
  | []        => .ok ([], buf)
  | f :: frags => do
    let (vs, buf) ← drain next (buf ++ f)
    let (ws, buf) ← receive next buf frags
    pure (vs ++ ws, buf)

/-- `frame` is a frame of `v`: decoded in front of any further bytes, undecided on every strict
prefix. -/
structure FrameOf (next : Next ε T) (frame : List UInt8) (v : T) : Prop where
  ne_nil : frame ≠ []
  whole : ∀ rest, next (frame ++ rest) = .ok (some (v, frame.length))
  strict : ∀ p, p <+: frame → p ≠ frame → next p = .ok none

/-- A list of frames and their values. -/
abbrev FramesOf (next : Next ε T) : List (List UInt8) → List T → Prop :=
  List.Forall₂ (FrameOf next)

lemma drain_frame {next : Next ε T} {frame : List UInt8} {v : T} (h : FrameOf next frame v)
    (rest : List UInt8) :
    drain next (frame ++ rest) = (do let (vs, buf) ← drain next rest; pure (v :: vs, buf)) := by
  rw [drain, h.whole rest]
  have hpos := List.length_pos_iff.mpr h.ne_nil
  simp [hpos, h.ne_nil]

lemma drain_strict {next : Next ε T} {frame p : List UInt8} {v : T} (h : FrameOf next frame v)
    (hp : p <+: frame) (hne : p ≠ frame) : drain next p = .ok ([], p) := by
  rw [drain, h.strict p hp hne]

/-- The buffer holds nothing, or a strict prefix of the next frame. -/
def Pending (frames : List (List UInt8)) (buf : List UInt8) : Prop :=
  match frames with
  | []     => buf = []
  | f :: _ => buf <+: f ∧ buf ≠ f

/-- Draining a prefix of a frame sequence yields the frames it holds in full and leaves a strict
prefix of the next one. -/
lemma drain_prefix {next : Next ε T} (hnil : next [] = .ok none) {frames : List (List UInt8)}
    {vs : List T} (h : FramesOf next frames vs) (buf tail : List UInt8)
    (heq : buf ++ tail = frames.flatten) :
    ∃ vs₁ vs₂ frames₂ buf', vs = vs₁ ++ vs₂ ∧ FramesOf next frames₂ vs₂ ∧
      drain next buf = .ok (vs₁, buf') ∧ buf' ++ tail = frames₂.flatten ∧
      Pending frames₂ buf' := by
  induction h generalizing buf with
  | nil =>
    obtain ⟨rfl, rfl⟩ := List.append_eq_nil_iff.mp heq
    exact ⟨[], [], [], [], rfl, .nil, by rw [drain, hnil], rfl, rfl⟩
  | @cons f v fs vs hf hfs ih =>
    rw [List.flatten_cons] at heq
    by_cases hlen : buf.length < f.length
    · -- the first frame is not complete yet
      have hpre : buf <+: f := by
        rw [List.append_eq_append_iff] at heq
        rcases heq with ⟨a, rfl, -⟩ | ⟨c, rfl, -⟩
        · exact List.prefix_append _ _
        · simp only [List.length_append] at hlen
          omega
      have hne : buf ≠ f := fun hc => by rw [hc] at hlen; omega
      exact ⟨[], v :: vs, f :: fs, buf, rfl, .cons hf hfs, drain_strict hf hpre hne,
        by rw [heq, List.flatten_cons], hpre, hne⟩
    · -- the first frame is complete: decode it and go on with the rest of the buffer
      obtain ⟨buf₁, rfl⟩ : ∃ buf₁, buf = f ++ buf₁ := by
        rw [List.append_eq_append_iff] at heq
        rcases heq with ⟨a, rfl, -⟩ | ⟨c, rfl, -⟩
        · simp only [List.length_append, not_lt] at hlen
          have : a = [] := List.eq_nil_of_length_eq_zero (by omega)
          exact ⟨[], by simp [this]⟩
        · exact ⟨c, rfl⟩
      rw [List.append_assoc] at heq
      obtain ⟨vs₁, vs₂, fs₂, buf', rfl, hfs₂, hd, hb, hp⟩ :=
        ih buf₁ (List.append_cancel_left heq)
      refine ⟨v :: vs₁, vs₂, fs₂, buf', rfl, hfs₂, ?_, hb, hp⟩
      rw [drain_frame hf, hd]
      rfl

/-- Every fragmentation of a sequence of frames yields their values and leaves an empty buffer. -/
theorem receive_frames {next : Next ε T} (hnil : next [] = .ok none)
    {frames : List (List UInt8)} {vs : List T} (h : FramesOf next frames vs) (buf : List UInt8)
    (frags : List (List UInt8)) (heq : buf ++ frags.flatten = frames.flatten)
    (hbuf : Pending frames buf) : receive next buf frags = .ok (vs, []) := by
  induction frags generalizing buf frames vs with
  | nil =>
    rw [List.flatten_nil, List.append_nil] at heq
    cases h with
    | nil =>
      cases hbuf
      rfl
    | cons hf hfs =>
      obtain ⟨hpre, hne⟩ := hbuf
      have hle := hpre.length_le
      rw [heq, List.flatten_cons, List.length_append] at hle
      exact absurd
        (hpre.eq_of_length_le (by rw [heq, List.flatten_cons, List.length_append]; omega))
        hne
  | cons f frags ih =>
    rw [List.flatten_cons, ← List.append_assoc] at heq
    obtain ⟨vs₁, vs₂, frames₂, buf', rfl, h₂, hd, hb, hp⟩ := drain_prefix hnil h (buf ++ f) _ heq
    simp only [receive, hd, bind, Except.bind, ih h₂ buf' hb hp, pure, Except.pure]

/-! ### Frames on their way -/

/-- A decided result is not changed by more bytes. -/
def Decided (next : Next ε T) : Prop :=
  ∀ buf more, next buf ≠ .ok none → next (buf ++ more) = next buf

/-- The bytes are the frames of `vs`. Behind them may be the start of one more frame, if the peer
has hung up. -/
def Carries (next : Next ε T) (buf : List UInt8) (closed : Bool) (vs : List T) : Prop :=
  ∃ frames cut, buf = frames.flatten ++ cut ∧ FramesOf next frames vs ∧ next cut = .ok none ∧
    (closed = false → cut = [])

namespace Carries

variable {next : Next ε T} {buf : List UInt8} {closed : Bool} {v : T} {vs : List T}

lemma nil (hnil : next [] = .ok none) : Carries next [] closed [] :=
  ⟨[], [], rfl, .nil, hnil, fun _ => rfl⟩

lemma append (h : Carries next buf false vs) {frame : List UInt8} (hframe : FrameOf next frame v)
    (hnil : next [] = .ok none) : Carries next (buf ++ frame) false (vs ++ [v]) := by
  obtain ⟨frames, cut, rfl, hframes, -, hcut⟩ := h
  obtain rfl := hcut rfl
  refine ⟨frames ++ [frame], [], by simp, ?_, hnil, fun _ => rfl⟩
  exact List.rel_append hframes (.cons hframe .nil)

lemma close (h : Carries next buf false vs) {frame cut : List UInt8}
    (hframe : FrameOf next frame v) (hcut : cut <+: frame) (hne : cut ≠ frame) :
    Carries next (buf ++ cut) true vs := by
  obtain ⟨frames, cut', rfl, hframes, -, hcut'⟩ := h
  obtain rfl := hcut' rfl
  exact ⟨frames, cut, by simp, hframes, hframe.strict cut hcut hne, nofun⟩

lemma next_nil (h : Carries next buf closed []) : next buf = .ok none := by
  obtain ⟨frames, cut, rfl, hframes, hcut, -⟩ := h
  cases hframes
  exact hcut

lemma next_cons (h : Carries next buf closed (v :: vs)) :
    ∃ n, next buf = .ok (some (v, n)) ∧ Carries next (buf.drop n) closed vs := by
  obtain ⟨frames, cut, rfl, hframes, hcut, hclosed⟩ := h
  cases hframes with
  | @cons frame _ frames _ hframe hframes =>
    refine ⟨frame.length, ?_, frames, cut, ?_, hframes, hcut, hclosed⟩
    · rw [List.flatten_cons, List.append_assoc]
      exact hframe.whole _
    · rw [List.flatten_cons, List.append_assoc, List.drop_left]

/-- What a reader finds in the first of the bytes is the first message. -/
lemma take {bs rest : List UInt8} {n : ℕ} (hnext : Decided next)
    (h : Carries next (bs ++ rest) closed vs) (hv : next bs = .ok (some (v, n)))
    (hn : n ≤ bs.length) : ∃ ws, vs = v :: ws ∧ Carries next (bs.drop n ++ rest) closed ws := by
  have hwhole : next (bs ++ rest) = .ok (some (v, n)) := by
    rw [← hv]
    apply hnext
    intro hnone
    rw [hv] at hnone
    cases hnone
  cases vs with
  | nil =>
    have hnone := h.next_nil
    rw [hwhole] at hnone
    cases hnone
  | cons w ws =>
    obtain ⟨m, hw, hrest⟩ := h.next_cons
    cases hw.symm.trans hwhole
    rw [List.drop_append_of_le_length hn] at hrest
    exact ⟨ws, rfl, hrest⟩

/-- The peer hangs up between two frames. -/
lemma hangUp (h : Carries next buf closed vs) : Carries next buf true vs := by
  obtain ⟨frames, cut, hbuf, hframes, hcut, -⟩ := h
  refine ⟨frames, cut, hbuf, hframes, hcut, fun hopen => ?_⟩
  cases hopen

end Carries

end ModelApi.Lib
