import ModelApi.Lib.Utf8
import ModelApi.Server.Handler

/-!
# Slots that stream

What a slot pushes into its sink, and the two slots that need no engine: the stub, which echoes the
prompt in about three pieces, and the subprocess, which decodes the output of its child as it is
read.
-/

namespace ModelApi.Server

/-! ### The sink -/

/-- The chunks among the events. -/
def chunksOf (evs : List SlotEvent) : List StreamChunk :=
  evs.filterMap fun
    | .chunk c    => some c
    | .progress _ => none

@[simp] lemma chunksOf_append (evs evs' : List SlotEvent) :
    chunksOf (evs ++ evs') = chunksOf evs ++ chunksOf evs' := List.filterMap_append

@[simp] lemma chunksOf_chunk (c : StreamChunk) (evs : List SlotEvent) :
    chunksOf (.chunk c :: evs) = c :: chunksOf evs := rfl

@[simp] lemma chunksOf_progress (p : ProgressEvent) (evs : List SlotEvent) :
    chunksOf (.progress p :: evs) = chunksOf evs := rfl

@[simp] lemma chunksOf_map (cs : List StreamChunk) : chunksOf (cs.map .chunk) = cs := by
  induction cs with
  | nil => rfl
  | cons c cs ih => rw [List.map_cons, chunksOf_chunk, ih]

/-- The text of the chunks, put together. -/
def deltaText : List StreamChunk → String
  | []      => ""
  | c :: cs => c.deltaText ++ deltaText cs

@[simp] lemma deltaText_nil : deltaText [] = "" := rfl

@[simp] lemma deltaText_cons (c : StreamChunk) (cs : List StreamChunk) :
    deltaText (c :: cs) = c.deltaText ++ deltaText cs := rfl

@[simp] lemma deltaText_append (cs cs' : List StreamChunk) :
    deltaText (cs ++ cs') = deltaText cs ++ deltaText cs' := by
  induction cs with
  | nil => simp
  | cons c cs ih => simp [ih, String.append_assoc]

/-- Exactly one of the chunks carries a finish reason, and it is the last one. -/
def Stopped (cs : List StreamChunk) : Prop :=
  ∃ front stop, cs = front ++ [stop] ∧ (∀ c ∈ front, c.finishReason = none) ∧
    stop.finishReason.isSome = true

/-- A chunk of answer text. -/
def textChunk (text : String) (finishReason : Option String) : StreamChunk :=
  ⟨text, finishReason, some "text"⟩

def progress (phase : String) (detail : Option String) : SlotEvent :=
  .progress ⟨phase, none, detail⟩

/-! ### The stub -/

namespace StubSlot

/-- The prompt that is echoed. -/
def promptOf : InferenceInput → String
  | .text t      => t
  | .turns turns =>
    match turns.reverse.find? fun t => t.role = .user with
    | some t => t.content
    | none   => "[stub: empty turns]"
  | .pcm _ _     => "[stub: pcm]"
  | .mel _ _     => "[stub: mel]"

def sessionIdOf : SessionMode → Option String
  | .stateless            => none
  | .persistent sessionId => some sessionId

def synthEchoResponse (req : InferenceRequest) : InferenceResponse where
  text := s!"echo: {promptOf req.input}"
  sessionId := sessionIdOf req.session
  rawText := some s!"<raw>echo: {promptOf req.input}</raw>"
  injections := []
  toolCalls := match req.tools with
    | []         => []
    | first :: _ => [⟨"tc-0", first.name, "\x7b\x7d"⟩]
  replacement := none

/-- The loop over the characters, of which `i` have been taken, the last of them into `buf`. -/
def cut (n chunkSize : ℕ) : ℕ → List Char → List Char → List StreamChunk
  | _, _, []           => []
  | i, buf, ch :: rest =>
    if (i + 1) % chunkSize = 0 ∨ i + 1 = n then
      textChunk (String.ofList (buf ++ [ch])) (if i + 1 = n then some "stop" else none) ::
        cut n chunkSize (i + 1) [] rest
    else cut n chunkSize (i + 1) (buf ++ [ch]) rest

def count (text : String) : ℕ := max text.toList.length 1

def chunkSize (text : String) : ℕ := max (count text / 3) 1

/-- `run_stream`: the events, and the response. -/
def runStream (req : InferenceRequest) : List SlotEvent × InferenceResponse :=
  let resp := synthEchoResponse req
  let n := count resp.text
  ([progress "queued" none, progress "gen_start" none] ++
    (cut n (chunkSize resp.text) 0 [] resp.text.toList).map .chunk ++
    [progress "gen_done" (some s!"{n} chars")], resp)

variable {n k : ℕ}

/-- Nothing is left in the buffer behind the last character. -/
lemma deltaText_cut {rest : List Char} : ∀ {i : ℕ} (buf : List Char), i + rest.length = n →
    (rest = [] → buf = []) → deltaText (cut n k i buf rest) = String.ofList (buf ++ rest) := by
  induction rest with
  | nil =>
    intro i buf _ hbuf
    rw [hbuf rfl]
    rfl
  | cons ch rest ih =>
    intro i buf hn _
    have hn' : i + 1 + rest.length = n := by rw [← hn, List.length_cons]; omega
    rw [cut]
    split
    · rw [deltaText_cons, ih [] hn' (fun _ => rfl)]
      simp [textChunk, ← String.ofList_append]
    · next hcut =>
      have hrest : rest ≠ [] := by
        rintro rfl
        exact hcut (.inr hn')
      rw [ih _ hn' (fun h => absurd h hrest), List.append_assoc]
      rfl

/-- The chunk behind the last character is the only one with a finish reason. -/
lemma stopped_cut {rest : List Char} : ∀ {i : ℕ} (buf : List Char), i + rest.length = n →
    rest ≠ [] → Stopped (cut n k i buf rest) := by
  induction rest with
  | nil => exact fun _ _ h => absurd rfl h
  | cons ch rest ih =>
    intro i buf hn _
    have hn' : i + 1 + rest.length = n := by rw [← hn, List.length_cons]; omega
    rw [cut]
    cases rest with
    | nil =>
      have hlast : i + 1 = n := hn'
      rw [if_pos (.inr hlast), if_pos hlast]
      exact ⟨[], _, rfl, List.forall_mem_nil _, rfl⟩
    | cons ch' rest =>
      have hlast : i + 1 ≠ n := by
        rw [List.length_cons] at hn'
        omega
      split
      · obtain ⟨front, stop, heq, hfront, hstop⟩ := ih [] hn' (List.cons_ne_nil _ _)
        rw [heq]
        exact ⟨_ :: front, stop, rfl, List.forall_mem_cons.mpr ⟨rfl, hfront⟩, hstop⟩
      · exact ih _ hn' (List.cons_ne_nil _ _)

/-- At most one chunk for each multiple of the chunk size, and one more. -/
lemma length_cut {rest : List Char} : ∀ {i : ℕ} (buf : List Char),
    i + rest.length = n → (cut n k i buf rest).length ≤ n / k - i / k + min rest.length 1 := by
  induction rest with
  | nil => exact fun _ _ => Nat.zero_le _
  | cons ch rest ih =>
    intro i buf hn
    have hn' : i + 1 + rest.length = n := by rw [← hn, List.length_cons]; omega
    rw [cut]
    have hone : min (ch :: rest).length 1 = 1 := by simp
    have hmono : i / k ≤ (i + 1) / k := Nat.div_le_div_right (Nat.le_succ i)
    have hmono' : (i + 1) / k ≤ n / k := Nat.div_le_div_right (by omega)
    rw [hone]
    split
    · have hrest := ih [] hn'
      rw [List.length_cons]
      by_cases hdvd : (i + 1) % k = 0
      · have hstep : (i + 1) / k = i / k + 1 := Nat.succ_div_of_dvd (Nat.dvd_of_mod_eq_zero hdvd)
        omega
      · have hlast : i + 1 = n := by omega
        have hnil : rest.length = 0 := by omega
        rw [hnil] at hrest
        omega
    · have hrest := ih (buf ++ [ch]) hn'
      omega

variable (req : InferenceRequest)

lemma toList_text_ne_nil : (synthEchoResponse req).text.toList ≠ [] := by
  have htext : (synthEchoResponse req).text = "echo: " ++ promptOf req.input := rfl
  rw [htext, String.toList_append]
  exact List.append_ne_nil_of_left_ne_nil (by decide) _

lemma count_text : 0 + (synthEchoResponse req).text.toList.length =
    count (synthEchoResponse req).text := by
  have hpos := List.length_pos_iff.mpr (toList_text_ne_nil req)
  rw [count]
  omega

lemma deltaText_runStream :
    deltaText (chunksOf (runStream req).1) = (runStream req).2.text := by
  simp only [runStream, progress, chunksOf_append, chunksOf_progress, chunksOf_map]
  have hcut := deltaText_cut (k := chunkSize (synthEchoResponse req).text) []
    (count_text req) (fun _ => rfl)
  simpa [chunksOf] using hcut

lemma stopped_runStream : Stopped (chunksOf (runStream req).1) := by
  simp only [runStream, progress, chunksOf_append, chunksOf_progress, chunksOf_map]
  have hcut := stopped_cut (k := chunkSize (synthEchoResponse req).text) []
    (count_text req) (toList_text_ne_nil req)
  simpa [chunksOf] using hcut

/-- The stub never emits more than nine events. -/
lemma length_runStream : (runStream req).1.length ≤ 9 := by
  have hcut := length_cut (k := chunkSize (synthEchoResponse req).text) [] (count_text req)
  have hdiv : count (synthEchoResponse req).text / chunkSize (synthEchoResponse req).text ≤ 5 := by
    rw [Nat.div_le_iff_le_mul_add_pred (by rw [chunkSize]; omega), chunkSize]
    omega
  rw [Nat.zero_div, Nat.sub_zero] at hcut
  simp only [runStream, List.length_append, List.length_map, List.length_cons, List.length_nil]
  omega

end StubSlot

/-! ### The subprocess -/

/-- What a command line is made of. -/
structure Command where
  program : String
  env : List (String × String)
  args : List String

/-- What one `read` of the child's output returns. -/
inductive StdoutRead where
  | ok (bytes : List UInt8)
  | err (e : String)

/-- What the operating system makes of a command: an error, or the reads of the child's output, up
to the end of the file. -/
abbrev Spawn := Command → Except String (Option (List StdoutRead))

structure SubprocessSlot where
  llamaBin : String
  model : String
  libDir : String
  nGpuLayers : Int32
  modelName : String
  spawn : Spawn

namespace SubprocessSlot

variable (slot : SubprocessSlot)

def command (prompt : String) (maxTokens : UInt32) : Command where
  program := slot.llamaBin
  env := [("LD_LIBRARY_PATH", slot.libDir)]
  args := ["-m", slot.model, "-p", prompt, "-n", toString maxTokens, "-ngl",
    toString slot.nGpuLayers.toInt, "--no-warmup", "-no-cnv", "--no-display-prompt", "--temp",
    "0.0", "--seed", "42"]

/-- The text of the bytes of one read. -/
def decode (bytes : List UInt8) : String :=
  match String.fromUTF8? ⟨bytes.toArray⟩ with
  | some s => s
  | none   => Lib.fromUtf8Lossy bytes

/-- What the loop over the reads ends with. -/
structure Loop where
  chunks : List StreamChunk
  fullText : String
  acc : String

/-- The loop over the reads. -/
def readLoop (fullText acc : String) : List StdoutRead → Loop
  | []              => ⟨[], fullText, acc⟩
  | .err _ :: _     => ⟨[], fullText, acc⟩
  | .ok [] :: _     => ⟨[], fullText, acc⟩
  | .ok (b :: bytes) :: reads =>
    let s := decode (b :: bytes)
    if 16 ≤ (acc ++ s).utf8ByteSize then
      let r := readLoop (fullText ++ s) "" reads
      { r with chunks := textChunk (acc ++ s) none :: r.chunks }
    else readLoop (fullText ++ s) (acc ++ s) reads

def respond (fullText : String) : InferenceResponse := ⟨fullText, none, none, [], [], none⟩

/-- The events and the result, from the child's output on. -/
def stream (reads : List StdoutRead) : List SlotEvent × InferenceResponse :=
  let r := readLoop "" "" reads
  let rest := if r.acc = "" then [] else [textChunk r.acc none]
  ((r.chunks ++ rest ++ [textChunk "" (some "stop")]).map .chunk ++
    [progress "gen_done" (some s!"{r.fullText.utf8ByteSize} chars")], respond r.fullText)

/-- `run_stream`: the events, and the result. -/
def runStream (req : InferenceRequest) : List SlotEvent × Except String InferenceResponse :=
  match req.input with
  | .text prompt =>
    let started := [progress "queued" none,
      progress "gen_start" (some s!"ngl={slot.nGpuLayers.toInt}")]
    match slot.spawn (slot.command prompt (max req.maxTokens 1)) with
    | .error e         => (started, .error s!"spawn: {e}")
    | .ok none         => (started, .error "stdout pipe missing")
    | .ok (some reads) =>
      let r := stream reads
      (started ++ r.1, .ok r.2)
  | _ => ([], .error "subprocess slot: non-text input not supported")

/-- The text of the reads in front of the end of the file or an error. -/
def output : List StdoutRead → String
  | .ok (b :: bytes) :: reads             => Lib.fromUtf8Lossy (b :: bytes) ++ output reads
  | [] | .err _ :: _ | .ok [] :: _        => ""

lemma decode_eq (bytes : List UInt8) : decode bytes = Lib.fromUtf8Lossy bytes := by
  rw [decode]
  split
  · next s hs => exact (Lib.fromUtf8Lossy_of_fromUTF8? hs).symm
  · rfl

/-- What is decoded is neither lost nor doubled on its way through the buffer. -/
lemma readLoop_eq (reads : List StdoutRead) : ∀ fullText acc,
    (readLoop fullText acc reads).fullText = fullText ++ output reads ∧
      deltaText (readLoop fullText acc reads).chunks ++ (readLoop fullText acc reads).acc =
        acc ++ output reads := by
  induction reads with
  | nil => simp [readLoop, output]
  | cons read reads ih =>
    intro fullText acc
    cases read with
    | err e => simp [readLoop, output]
    | ok bytes =>
      cases bytes with
      | nil => simp [readLoop, output]
      | cons b bytes =>
        simp only [readLoop, output, decode_eq]
        split
        · obtain ⟨hfull, hdelta⟩ := ih (fullText ++ Lib.fromUtf8Lossy (b :: bytes)) ""
          refine ⟨by rw [hfull, String.append_assoc], ?_⟩
          rw [deltaText_cons, String.append_assoc, hdelta, textChunk, String.empty_append,
            String.append_assoc]
        · obtain ⟨hfull, hdelta⟩ := ih (fullText ++ Lib.fromUtf8Lossy (b :: bytes))
            (acc ++ Lib.fromUtf8Lossy (b :: bytes))
          exact ⟨by rw [hfull, String.append_assoc], by rw [hdelta, String.append_assoc]⟩

lemma readLoop_finishReason (reads : List StdoutRead) : ∀ fullText acc,
    ∀ c ∈ (readLoop fullText acc reads).chunks, c.finishReason = none := by
  induction reads with
  | nil => exact fun _ _ => List.forall_mem_nil _
  | cons read reads ih =>
    intro fullText acc
    cases read with
    | err e => exact List.forall_mem_nil _
    | ok bytes =>
      cases bytes with
      | nil => exact List.forall_mem_nil _
      | cons b bytes =>
        simp only [readLoop]
        split
        · exact List.forall_mem_cons.mpr ⟨rfl, ih _ _⟩
        · exact ih _ _

lemma chunksOf_stream (reads : List StdoutRead) :
    chunksOf (stream reads).1 = (readLoop "" "" reads).chunks ++
      (if (readLoop "" "" reads).acc = "" then []
       else [textChunk (readLoop "" "" reads).acc none]) ++
        [textChunk "" (some "stop")] := by
  simp [stream, progress, chunksOf]

lemma deltaText_stream (reads : List StdoutRead) :
    deltaText (chunksOf (stream reads).1) = output reads ∧
      (stream reads).2.text = output reads := by
  obtain ⟨hfull, hdelta⟩ := readLoop_eq reads "" ""
  rw [String.empty_append] at hfull hdelta
  refine ⟨?_, hfull⟩
  rw [chunksOf_stream, ← hdelta]
  split
  · next hacc => simp [textChunk, hacc]
  · simp [textChunk]

lemma stopped_stream (reads : List StdoutRead) : Stopped (chunksOf (stream reads).1) := by
  refine ⟨_, _, chunksOf_stream reads, ?_, rfl⟩
  refine List.forall_mem_append.mpr ⟨readLoop_finishReason reads "" "", ?_⟩
  split
  · exact List.forall_mem_nil _
  · exact List.forall_mem_singleton.mpr rfl

/-- A request that is answered: the child was started, and its output was read. -/
lemma runStream_ok {slot : SubprocessSlot} {req : InferenceRequest} {evs : List SlotEvent}
    {resp : InferenceResponse} (h : slot.runStream req = (evs, .ok resp)) :
    ∃ reads, chunksOf evs = chunksOf (stream reads).1 ∧ resp = (stream reads).2 := by
  rw [runStream] at h
  split at h
  · split at h
    · cases h
    · cases h
    · next reads _ =>
      cases h
      exact ⟨reads, by simp [progress], rfl⟩
  · cases h

end SubprocessSlot

end ModelApi.Server
