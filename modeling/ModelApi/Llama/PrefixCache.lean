import ModelApi.Llama.Session

/-!
# The prefix cache

`chitin_llama::prefix_cache`, with `save_seq` and `load_seq` of a session: the KV cache goes into a
file, and another session goes on from there. What is in a file is up to llama.cpp. A session that
has been loaded behaves as the one that was saved, in all that is done with the two, if the tokens
that were saved with the cache are as many as those in the cache.
-/

namespace ModelApi.Llama

open Lib

variable {Token File : Type}

/-- The files of llama.cpp. To fail is to return 0 bytes. -/
structure SeqFiles (Token File : Type) where
  /-- `llama_state_seq_save_file`: the file, from the cache, the tokens and the file before -/
  saveFile : List Token → List Token → Option File → Option File × ℕ
  /-- `llama_state_seq_load_file`: the bytes, the tokens and the cache, from the file, the room for
  tokens and the cache before -/
  loadFile : File → ℕ → List Token → ℕ × List Token × List Token

/-- What is loaded is what was saved. A file may be refused. -/
def SeqFiles.Lawful (files : SeqFiles Token File) : Prop :=
  ∀ kv tokens before, (files.saveFile kv tokens before).2 ≠ 0 →
    ∀ file, (files.saveFile kv tokens before).1 = some file →
      ∀ capacity kv', (files.loadFile file capacity kv').1 ≠ 0 →
        (files.loadFile file capacity kv').2 = (tokens, kv)

/-- The files by their paths. -/
abbrev Disk (File : Type) := String → Option File

namespace PrefixCache

def cachePath (modelDir tag : String) : String := s!"{modelDir}/llama_prefix_{tag}.bin"

/-- `CString::new`: where the first NUL is. -/
def nulPosition (path : String) : Option ℕ :=
  if '\x00' ∈ path.toList then
    some (String.ofList (path.toList.takeWhile (· ≠ '\x00'))).utf8ByteSize
  else none

section Files

variable (files : SeqFiles Token File)

def save (path : String) (tokens kv : List Token) (disk : Disk File) :
    Except String ℕ × Disk File :=
  match nulPosition path with
  | some n =>
    (.error s!"prefix_cache::save bad path: nul byte found in provided data at position: {n}", disk)
  | none   =>
    match files.saveFile kv tokens (disk path) with
    | (file, written) =>
      let disk := Function.update disk path file
      if written = 0 then (.error s!"llama_state_seq_save_file({path}) returned 0", disk)
      else (.ok written, disk)

/-- The bytes and the tokens, and the cache. There is no file where the path has a NUL. -/
def load (path : String) (capacity : ℕ) (disk : Disk File) (kv : List Token) :
    Except String (ℕ × List Token) × List Token :=
  match nulPosition path, disk path with
  | some _, _       => (.ok (0, []), kv)
  | none, none      => (.ok (0, []), kv)
  | none, some file =>
    if capacity = 0 then (.error "prefix_cache::load needs preallocated tokens_out capacity", kv)
    else
      match files.loadFile file capacity kv with
      | (read, tokens, kv) => if read = 0 then (.ok (0, []), kv) else (.ok (read, tokens), kv)

end Files
end PrefixCache

namespace Session

section Files

variable (files : SeqFiles Token File)

def saveSeq (path : String) (tokens : List Token) (s : Session Token) (disk : Disk File) :
    Except String ℕ × Disk File :=
  PrefixCache.save files path tokens s.kv disk

/-- A load that brings nothing leaves the position alone, whatever it did to the cache. -/
def loadSeq (path : String) (maxTokens : ℕ) (disk : Disk File) (s : Session Token) :
    Except String (List Token × ℕ) × Session Token :=
  match PrefixCache.load files path (max maxTokens 1) disk s.kv with
  | (.error e, kv)            => (.error e, { s with kv := kv })
  | (.ok (bytes, tokens), kv) =>
    if bytes = 0 then (.ok ([], 0), { s with kv := kv })
    else (.ok (tokens, bytes), { s with kv := kv, nCur := asI32 tokens.length })

/-- Saves of other sessions into other files, successful or not. -/
def saveOthers (modelDir : String) (others : List (String × List Token × Session Token))
    (disk : Disk File) : Disk File :=
  others.foldl (fun disk o =>
    (saveSeq files (PrefixCache.cachePath modelDir o.1) o.2.1 o.2.2 disk).2) disk

end Files

/-! ### What a session answers -/

/-- What a call returns. -/
inductive Answer (Token : Type) where
  | position (result : Except String Int32)
  | pushed (result : Except String Unit)
  | produced (result : Except String (List Token))
  | cleared

def Call.answer (llama : LlamaCpp Token) (s : Session Token) : Call Token → Answer Token
  | .prefill promptTokens               => .position (Session.prefill llama promptTokens s).1
  | .pushToken token                    => .pushed (Session.pushToken llama token s).1
  | .generateRaw promptTokens maxTokens =>
    .produced (Session.generateRaw llama promptTokens maxTokens s).1
  | .clearKv                            => .cleared

/-- What a session returns for a series of calls. Each call meets a llama.cpp of its own. -/
def answers : List (LlamaCpp Token × Call Token) → Session Token → List (Answer Token)
  | [], _                     => []
  | (llama, call) :: calls, s => call.answer llama s :: answers calls (call.run llama s)

/-! ### The batch does not matter -/

/-- Sessions that differ in nothing but the batch. -/
def Alike (s t : Session Token) : Prop := ∃ batch, t = { s with batch := batch }

lemma Alike.refl (s : Session Token) : s.Alike s := ⟨s.batch, rfl⟩

variable (llama : LlamaCpp Token) {s t : Session Token}

lemma Alike.prefillLoop (h : s.Alike t) (tokens : List Token) (startPos fuel i : ℕ) :
    (prefillLoop llama tokens startPos fuel i s).1 =
        (prefillLoop llama tokens startPos fuel i t).1 ∧
      (prefillLoop llama tokens startPos fuel i s).2.Alike
        (prefillLoop llama tokens startPos fuel i t).2 := by
  obtain ⟨batch, rfl⟩ := h
  cases fuel with
  | zero => exact ⟨rfl, batch, rfl⟩
  | succ fuel =>
    by_cases hi : i < tokens.length
    · -- the first turn throws the batch away
      have heq : Session.prefillLoop llama tokens startPos (fuel + 1) i { s with batch := batch } =
          Session.prefillLoop llama tokens startPos (fuel + 1) i s := by
        simp only [Session.prefillLoop, if_pos hi]
      rw [heq]
      exact ⟨rfl, Alike.refl _⟩
    · rw [Session.prefillLoop, Session.prefillLoop, if_neg hi, if_neg hi]
      exact ⟨rfl, batch, rfl⟩

lemma Alike.prefill (h : s.Alike t) (tokens : List Token) :
    (prefill llama tokens s).1 = (prefill llama tokens t).1 ∧
      (prefill llama tokens s).2.Alike (prefill llama tokens t).2 := by
  have hloop := h.prefillLoop llama tokens (asUsize s.nCur) tokens.length 0
  have hnCur : t.nCur = s.nCur := by
    obtain ⟨batch, rfl⟩ := h
    rfl
  have hmax : t.maxSeqLen = s.maxSeqLen := by
    obtain ⟨batch, rfl⟩ := h
    rfl
  rw [Session.prefill, Session.prefill, hnCur, hmax]
  split_ifs
  · exact ⟨rfl, h⟩
  · simp only
    split_ifs
    · exact ⟨rfl, h⟩
    · cases hs : Session.prefillLoop llama tokens (asUsize s.nCur) tokens.length 0 s with
      | mk result s' =>
        cases ht : Session.prefillLoop llama tokens (asUsize s.nCur) tokens.length 0 t with
        | mk result' t' =>
          rw [hs, ht] at hloop
          obtain ⟨rfl, batch, rfl⟩ := hloop
          cases result with
          | error e => exact ⟨rfl, batch, rfl⟩
          | ok => exact ⟨rfl, batch, rfl⟩

lemma Alike.pushToken (h : s.Alike t) (token : Token) :
    pushToken llama token s = pushToken llama token t := by
  obtain ⟨batch, rfl⟩ := h
  rfl

lemma Alike.generateLoop (h : s.Alike t) (turns : ℕ) (produced : List Token) :
    (generateLoop llama turns produced s).1 = (generateLoop llama turns produced t).1 ∧
      (generateLoop llama turns produced s).2.Alike (generateLoop llama turns produced t).2 := by
  cases turns with
  | zero => exact ⟨rfl, h⟩
  | succ turns =>
    have hstep : step llama t = step llama s := by
      obtain ⟨batch, rfl⟩ := h
      rfl
    rw [Session.generateLoop, Session.generateLoop, hstep]
    cases step llama s with
    | none => exact ⟨rfl, h⟩
    | some token =>
      simp only
      rw [h.pushToken llama token]
      exact ⟨rfl, Alike.refl _⟩

lemma Alike.generateRaw (h : s.Alike t) (tokens : List Token) (maxTokens : ℕ) :
    (generateRaw llama tokens maxTokens s).1 = (generateRaw llama tokens maxTokens t).1 ∧
      (generateRaw llama tokens maxTokens s).2.Alike (generateRaw llama tokens maxTokens t).2 := by
  have hprefill := h.prefill llama tokens
  rw [Session.generateRaw, Session.generateRaw]
  cases hs : Session.prefill llama tokens s with
  | mk result s' =>
    cases ht : Session.prefill llama tokens t with
    | mk result' t' =>
      rw [hs, ht] at hprefill
      obtain ⟨rfl, halike⟩ := hprefill
      cases result with
      | error e => exact ⟨rfl, halike⟩
      | ok n =>
        have hloop := halike.generateLoop llama maxTokens []
        exact ⟨congrArg Except.ok hloop.1, hloop.2⟩

lemma Alike.call (h : s.Alike t) (call : Call Token) :
    call.answer llama s = call.answer llama t ∧ (call.run llama s).Alike (call.run llama t) := by
  cases call with
  | prefill tokens =>
    obtain ⟨hanswer, halike⟩ := h.prefill llama tokens
    exact ⟨congrArg Answer.position hanswer, halike⟩
  | pushToken token =>
    rw [Call.answer, Call.answer, Call.run, Call.run, h.pushToken llama token]
    exact ⟨rfl, Alike.refl _⟩
  | generateRaw tokens maxTokens =>
    obtain ⟨hanswer, halike⟩ := h.generateRaw llama tokens maxTokens
    exact ⟨congrArg Answer.produced hanswer, halike⟩
  | clearKv =>
    obtain ⟨batch, rfl⟩ := h
    exact ⟨rfl, batch, rfl⟩

/-- Sessions that are alike give the same answers for ever. -/
lemma Alike.answers_eq (h : s.Alike t) (calls : List (LlamaCpp Token × Call Token)) :
    answers calls s = answers calls t := by
  induction calls generalizing s t with
  | nil => rfl
  | cons c calls ih =>
    obtain ⟨hanswer, halike⟩ := h.call c.1 c.2
    rw [answers, answers, hanswer, ih halike]

/-! ### Warm starts -/

end Session

lemma PrefixCache.cachePath_injective {modelDir tag tag' : String}
    (h : cachePath modelDir tag = cachePath modelDir tag') : tag = tag' := by
  have hlist := congrArg String.toList h
  simpa [cachePath, toString, String.toList_inj] using hlist

namespace Session

variable {files : SeqFiles Token File}

lemma saveSeq_of_ne {path path' : String} (h : path' ≠ path) (tokens : List Token)
    (s : Session Token) (disk : Disk File) :
    (saveSeq files path' tokens s disk).2 path = disk path := by
  rw [saveSeq, PrefixCache.save]
  cases PrefixCache.nulPosition path' with
  | some n => rfl
  | none =>
    simp only
    split_ifs <;> simp [Function.update_of_ne h.symm]

lemma saveOthers_eq {modelDir tag : String} {others : List (String × List Token × Session Token)}
    (h : ∀ o ∈ others, o.1 ≠ tag) (disk : Disk File) :
    saveOthers files modelDir others disk (PrefixCache.cachePath modelDir tag) =
      disk (PrefixCache.cachePath modelDir tag) := by
  induction others generalizing disk with
  | nil => rfl
  | cons o others ih =>
    obtain ⟨ho, hothers⟩ := List.forall_mem_cons.mp h
    have hne : PrefixCache.cachePath modelDir o.1 ≠ PrefixCache.cachePath modelDir tag :=
      fun heq => ho (PrefixCache.cachePath_injective heq)
    rw [saveOthers, List.foldl_cons]
    exact (ih hothers _).trans (saveSeq_of_ne hne _ _ _)

/-- A file is as a successful save left it. -/
lemma saveSeq_eq_ok {path : String} {tokens : List Token} {s : Session Token}
    {disk disk' : Disk File} {n : ℕ} (h : saveSeq files path tokens s disk = (.ok n, disk')) :
    (files.saveFile s.kv tokens (disk path)).2 ≠ 0 ∧
      disk' path = (files.saveFile s.kv tokens (disk path)).1 := by
  rw [saveSeq, PrefixCache.save] at h
  cases hnul : PrefixCache.nulPosition path with
  | some n => simp [hnul] at h
  | none =>
    simp only [hnul] at h
    split_ifs at h with hzero
    · simp at h
    · obtain ⟨-, rfl⟩ := Prod.mk.inj h
      exact ⟨hzero, Function.update_self ..⟩

/-- A load that brings something has read a file. -/
lemma loadSeq_eq_ok {path : String} {maxTokens bytes : ℕ} {disk : Disk File} {s s' : Session Token}
    {tokens : List Token} (h : loadSeq files path maxTokens disk s = (.ok (tokens, bytes), s'))
    (hbytes : bytes ≠ 0) :
    ∃ file, disk path = some file ∧
      (files.loadFile file (max maxTokens 1) s.kv).1 ≠ 0 ∧
      tokens = (files.loadFile file (max maxTokens 1) s.kv).2.1 ∧
      s' = { s with
        kv := (files.loadFile file (max maxTokens 1) s.kv).2.2
        nCur := asI32 tokens.length } := by
  rw [loadSeq, PrefixCache.load] at h
  cases hnul : PrefixCache.nulPosition path with
  | some n =>
    simp [hnul] at h
    omega
  | none =>
    cases hdisk : disk path with
    | none =>
      simp [hnul, hdisk] at h
      omega
    | some file =>
      have hcapacity : max maxTokens 1 ≠ 0 := by omega
      rcases hload : files.loadFile file (max maxTokens 1) s.kv with ⟨read, loaded, kv⟩
      refine ⟨file, rfl, ?_⟩
      by_cases hread : read = 0
      · simp [hnul, hdisk, hcapacity, hload, hread] at h
        omega
      · simp only [hnul, hdisk, hcapacity, hload, hread, if_false] at h
        obtain ⟨hresult, rfl⟩ := Prod.mk.inj h
        obtain ⟨rfl, -⟩ := Prod.mk.inj (Except.ok.inj hresult)
        rw [hload]
        exact ⟨hread, rfl, rfl⟩

/-- A token whose place gives the position away. -/
def Call.probe (n : ℕ) (token : Token) : LlamaCpp Token × Call Token where
  fst :=
    { sample := fun _ => token
      isEog := fun _ => true
      refuses := fun _ batch => if batch.any fun e => e.pos = asI32 n then some "" else none
      insufficientSpace := fun _ => "" }
  snd := .pushToken token

lemma answer_probe (n : ℕ) (token : Token) (s : Session Token) :
    (Call.probe n token).2.answer (Call.probe n token).1 s =
      .pushed (if s.nCur = asI32 n then .error "decode step: " else .ok ()) := by
  rw [Call.probe, Call.answer, pushToken_eq]
  by_cases h : s.nCur = asI32 n
  · simp [h]
    rfl
  · simp [h]

lemma asI32_inj {m n : ℕ} (hm : Fits m) (hn : Fits n) (h : asI32 m = asI32 n) : m = n := by
  have hint := congrArg Int32.toInt h
  rw [toInt_asI32 hm, toInt_asI32 hn] at hint
  exact_mod_cast hint

/-- A session whose position is the length of its cache is saved, with some tokens, and another one
of the same size is loaded from this file, later, after any saves under other tags. It has the
tokens back, and it cannot be told from the one that was saved, exactly if the tokens were as many
as those in the cache. -/
theorem answers_loadSeq_iff (files : SeqFiles Token File) (hfiles : files.Lawful)
    (modelDir tag : String) {tokens : List Token} {s t t' : Session Token} (hs : s.Positioned)
    (hkv : Fits s.kv.length) (htokens : Fits tokens.length)
    (hcapacity : t.batchCapacity = s.batchCapacity) (hmax : t.maxSeqLen = s.maxSeqLen)
    {disk disk' : Disk File} {n : ℕ}
    (hsave : saveSeq files (PrefixCache.cachePath modelDir tag) tokens s disk = (.ok n, disk'))
    {others : List (String × List Token × Session Token)} (hothers : ∀ o ∈ others, o.1 ≠ tag)
    {maxTokens bytes : ℕ} {loaded : List Token}
    (hload : loadSeq files (PrefixCache.cachePath modelDir tag) maxTokens
      (saveOthers files modelDir others disk') t = (.ok (loaded, bytes), t')) (hbytes : bytes ≠ 0) :
    loaded = tokens ∧
      ((∀ calls, answers calls t' = answers calls s) ↔ tokens.length = s.kv.length) := by
  obtain ⟨hsaved, hdisk⟩ := saveSeq_eq_ok hsave
  obtain ⟨file, hfile, hread, rfl, rfl⟩ := loadSeq_eq_ok hload hbytes
  rw [saveOthers_eq hothers, hdisk] at hfile
  have hrestored := hfiles _ _ _ hsaved file hfile _ _ hread
  rw [hrestored]
  refine ⟨rfl, fun h => ?_, fun hlength calls => ?_⟩
  · by_contra hne
    obtain ⟨token⟩ : Nonempty Token := by
      by_contra hempty
      rw [not_nonempty_iff] at hempty
      exact hne (congrArg List.length (Subsingleton.elim tokens s.kv))
    have hprobe := h [Call.probe tokens.length token]
    have hnCur : s.nCur ≠ asI32 tokens.length := by
      rw [hs.nCur_eq_asI32 hkv]
      exact fun heq => hne (asI32_inj htokens hkv heq.symm)
    simp [answers, answer_probe, hnCur] at hprobe
  · have hnCur : asI32 tokens.length = s.nCur := by
      rw [hlength, hs.nCur_eq_asI32 hkv]
    symm
    apply Alike.answers_eq
    refine ⟨t.batch, ?_⟩
    rw [hnCur]
    cases s
    cases t
    obtain rfl : _ = _ := hcapacity
    obtain rfl : _ = _ := hmax
    rfl

/-- Files with the cache and the tokens in them. -/
def demoFiles : SeqFiles ℕ (List ℕ × List ℕ) where
  saveFile kv tokens _ := (some (kv, tokens), 4 * (kv.length + tokens.length))
  loadFile file capacity kv :=
    if capacity < file.2.length then (0, [], kv)
    else (4 * (file.1.length + file.2.length), file.2, file.1)

lemma lawful_demoFiles : demoFiles.Lawful := by
  rintro kv tokens before - file hfile capacity kv' hread
  obtain rfl : (kv, tokens) = file := Option.some.inj hfile
  by_cases h : capacity < tokens.length
  · simp [demoFiles, h] at hread
  · simp [demoFiles, h]

/-- A session with three tokens in its cache. -/
def demoServed : Session ℕ := { demoSession with kv := [7, 8, 9], nCur := 3 }

def demoDisk : Disk (List ℕ × List ℕ) :=
  Function.update (fun _ => none) (PrefixCache.cachePath "models" "a") (some ([7, 8, 9], [7, 8, 9]))

theorem answers_loadSeq_iff_demo :
    [7, 8, 9] = [7, 8, 9] ∧
      ((∀ calls, answers calls { demoSession with kv := [7, 8, 9], nCur := asI32 3 } =
        answers calls demoServed) ↔ 3 = 3) := by
  have hsave : saveSeq demoFiles (PrefixCache.cachePath "models" "a") [7, 8, 9] demoServed
      (fun _ => none) = (.ok 24, demoDisk) := rfl
  have hothers : ∀ o ∈ [("b", [5], demoServed)], o.1 ≠ "a" := by
    simp
  have hload : loadSeq demoFiles (PrefixCache.cachePath "models" "a") 16
      (saveOthers demoFiles "models" [("b", [5], demoServed)] demoDisk) demoSession =
        (.ok ([7, 8, 9], 24), { demoSession with kv := [7, 8, 9], nCur := asI32 3 }) := rfl
  have htokens : Fits [7, 8, 9].length := by decide
  exact answers_loadSeq_iff demoFiles lawful_demoFiles "models" "a" (s := demoServed)
    (t := demoSession) ⟨rfl, by decide⟩ (by decide) htokens rfl rfl hsave hothers hload (by decide)

end Session
end ModelApi.Llama
