import ModelApi.Server.Slots

/-!
# Where the output of the child is cut

The subprocess slot decodes each read on its own. What it makes of the child's output depends on
where the reads end, but only where they end inside a character.
-/

namespace ModelApi.Server

open Lib

namespace SubprocessSlot

variable {reads : List (List UInt8)} {s : String}

lemma toList_output (hne : ∀ r ∈ reads, r ≠ []) :
    (output (reads.map .ok)).toList = reads.flatMap (lossyFrom 0) := by
  induction reads with
  | nil => rfl
  | cons r reads ih =>
    obtain ⟨hr, hrest⟩ := List.forall_mem_cons.mp hne
    cases r with
    | nil => exact absurd rfl hr
    | cons b bytes =>
      rw [List.map_cons, output, String.toList_append, ih hrest, fromUtf8Lossy,
        String.toList_ofList, List.flatMap_cons]

/-- Each read that begins inside a character makes the text longer. -/
lemma firstBytes_le_length_output (reads : List (List UInt8)) :
    firstBytes reads.flatten + reads.countP (¬ Begins ·) ≤
      (reads.flatMap (lossyFrom 0)).length := by
  induction reads with
  | nil => rfl
  | cons r reads ih =>
    have hr := firstBytes_le_length_lossyFrom r
    rw [List.flatten_cons, firstBytes_append, List.countP_cons, List.flatMap_cons,
      List.length_append]
    simp only [decide_eq_true_eq, ite_not] at ih ⊢
    omega

/-- Reads that begin with characters hold whole characters. -/
lemma isSome_of_begins {cs : List Char} (hne : ∀ r ∈ reads, r ≠ [])
    (hbegins : ∀ r ∈ reads, Begins r) (h : reads.flatten = cs.flatMap String.utf8EncodeChar) :
    ∀ r ∈ reads, (String.fromUTF8? ⟨r.toArray⟩).isSome := by
  induction reads generalizing cs with
  | nil => exact List.forall_mem_nil _
  | cons r reads ih =>
    obtain ⟨-, hne⟩ := List.forall_mem_cons.mp hne
    obtain ⟨-, hbegins⟩ := List.forall_mem_cons.mp hbegins
    have hback : Begins reads.flatten := by
      cases reads with
      | nil => simp [Begins]
      | cons r' reads =>
        obtain ⟨b, bytes, hr'⟩ := List.exists_cons_of_ne_nil (hne r' List.mem_cons_self)
        have hb := hbegins r' List.mem_cons_self
        rw [hr'] at hb ⊢
        exact hb
    obtain ⟨cs₁, cs₂, hr, hreads⟩ := exists_cut_of_begins hback h
    refine List.forall_mem_cons.mpr ⟨?_, ih hne hbegins hreads⟩
    have hsome : String.fromUTF8? ⟨r.toArray⟩ = some (String.ofList cs₁) := by
      rw [fromUTF8?_eq_some, String.toList_ofList, hr]
    rw [hsome]
    rfl

/-- Reads of whole characters are decoded as they are. -/
lemma flatMap_lossyFrom (h : ∀ r ∈ reads, (String.fromUTF8? ⟨r.toArray⟩).isSome) :
    (reads.flatMap (lossyFrom 0)).flatMap String.utf8EncodeChar = reads.flatten := by
  induction reads with
  | nil => rfl
  | cons r reads ih =>
    obtain ⟨hr, h⟩ := List.forall_mem_cons.mp h
    obtain ⟨s, hs⟩ := Option.isSome_iff_exists.mp hr
    rw [List.flatMap_cons, List.flatMap_append, ih h, List.flatten_cons, fromUTF8?_eq_some.mp hs,
      lossyFrom_flatMap]

/-- The text of a child's output is the decoded output just if every read holds whole characters. -/
lemma output_eq_iff (hne : ∀ r ∈ reads, r ≠ [])
    (hs : String.fromUTF8? ⟨reads.flatten.toArray⟩ = some s) :
    output (reads.map .ok) = s ↔ ∀ r ∈ reads, (String.fromUTF8? ⟨r.toArray⟩).isSome := by
  have hbytes := fromUTF8?_eq_some.mp hs
  rw [← String.toList_inj, toList_output hne]
  constructor
  · intro htext
    apply isSome_of_begins hne _ hbytes
    have hle := firstBytes_le_length_output reads
    rw [hbytes, firstBytes_flatMap, htext] at hle
    have hzero : reads.countP (¬ Begins ·) = 0 := by omega
    simpa using List.countP_eq_zero.mp hzero
  · intro hwhole
    have hchars := congrArg (lossyFrom 0) (flatMap_lossyFrom hwhole)
    rwa [lossyFrom_flatMap, hbytes, lossyFrom_flatMap] at hchars

/-- The response is the decoded output just if no read ends inside a character. Then it does not
depend on where else the reads end. -/
theorem text_runStream_iff {slot : SubprocessSlot} {req : InferenceRequest} {prompt : String}
    (hinput : req.input = .text prompt)
    (hspawn : slot.spawn (slot.command prompt (max req.maxTokens 1)) =
      .ok (some (reads.map .ok)))
    (hne : ∀ r ∈ reads, r ≠ []) (hs : String.fromUTF8? ⟨reads.flatten.toArray⟩ = some s) :
    ∃ evs resp, slot.runStream req = (evs, .ok resp) ∧
      (resp.text = s ↔ ∀ r ∈ reads, (String.fromUTF8? ⟨r.toArray⟩).isSome) := by
  have hrun : ∃ evs, slot.runStream req = (evs, .ok (stream (reads.map .ok)).2) := by
    simp only [runStream, hinput, hspawn]
    exact ⟨_, rfl⟩
  obtain ⟨evs, hrun⟩ := hrun
  refine ⟨evs, _, hrun, ?_⟩
  rw [(deltaText_stream _).2]
  exact output_eq_iff hne hs

/-! ### A child that writes one letter -/

/-- A child whose output is read in these parts. -/
def demoSlot (reads : List (List UInt8)) : SubprocessSlot where
  llamaBin := "llama-completion"
  model := "model.gguf"
  libDir := "."
  nGpuLayers := 0
  modelName := "model"
  spawn _ := .ok (some (reads.map .ok))

/-- A request for the text behind "hi". -/
def demoRequest : InferenceRequest :=
  { InferenceRequest.plain .stateless [] with input := .text "hi" }

/-- The letter é between two others, and the reads end between the letters. -/
theorem text_runStream_iff_demo :
    ∃ evs resp, (demoSlot [[97], [0xC3, 0xA9, 98]]).runStream demoRequest = (evs, .ok resp) ∧
      (resp.text = "aéb" ↔
        ∀ r ∈ [[97], [0xC3, 0xA9, 98]], (String.fromUTF8? ⟨r.toArray⟩).isSome) := by
  apply text_runStream_iff rfl rfl
  · decide
  · decide +kernel

/-- The letter é, read at once and byte by byte. -/
theorem not_text_runStream :
    ¬ ∀ (reads reads' : List (List UInt8)) (s : String),
      (∀ r ∈ reads ++ reads', 1 ≤ r.length ∧ r.length ≤ 256) →
      reads.flatten = reads'.flatten → String.fromUTF8? ⟨reads.flatten.toArray⟩ = some s →
      ∃ evs evs' resp resp', (demoSlot reads).runStream demoRequest = (evs, .ok resp) ∧
        (demoSlot reads').runStream demoRequest = (evs', .ok resp') ∧ resp.text = s ∧
          resp'.text = s := by
  intro h
  obtain ⟨evs, evs', resp, resp', -, hrun', -, htext⟩ :=
    h [[0xC3, 0xA9]] [[0xC3], [0xA9]] "é" (by decide) rfl (by decide +kernel)
  have htext' : ((demoSlot [[0xC3], [0xA9]]).runStream demoRequest).2.map (·.text) =
      .ok "\uFFFD\uFFFD" := by decide +kernel
  rw [hrun'] at htext'
  have hé := htext.symm.trans (Except.ok.inj htext')
  revert hé
  decide

end SubprocessSlot
end ModelApi.Server
