import ModelApi.Lib.Decimal
import ModelApi.Lib.Updates

/-!
# The command line

`parse_args`: the options of the server, each of which sets one of its settings. Options of
different settings can come in any order, the last option of a setting wins, and every choice of
settings can be written as a command line.
-/

namespace ModelApi.Server.Cli

open Lib

/-! ### Settings -/

inductive BackendKind where
  | llamaCpp
  | liteRtLm
  | subprocess
  | stub
  deriving DecidableEq, Repr

def BackendKind.parse (s : String) : Except String BackendKind :=
  match s with
  | "llama-cpp" | "llama"    => .ok .llamaCpp
  | "litert-lm" | "litertlm" => .ok .liteRtLm
  | "subprocess"             => .ok .subprocess
  | "stub"                   => .ok .stub
  | other                    => .error s!"unknown --backend: {other}"

def BackendKind.name : BackendKind → String
  | .llamaCpp   => "llama-cpp"
  | .liteRtLm   => "litert-lm"
  | .subprocess => "subprocess"
  | .stub       => "stub"

lemma BackendKind.parse_name (k : BackendKind) : parse k.name = .ok k := by
  cases k <;> rfl

/-- All settings but the socket. -/
structure Options where
  backend : Option BackendKind
  modelPath : Option String
  modelName : Option String
  maxTokens : UInt64
  maxSeqLen : UInt32
  llamaBin : Option String
  llamaLibDir : Option String
  llamaNgl : Int32
  litertlmAccel : String
  litertlmMaxNumTokens : Int32
  litertlmVisualTokenBudget : Int32
  litertlmPrefixCacheSize : UInt64
  litertlmPrefixCacheTtlSecs : UInt64
  litertlmSystemPrompt : Option String
  litertlmCacheDir : Option String
  deriving DecidableEq

structure Args where
  socketPath : String
  options : Options
  deriving DecidableEq

/-- The variables of the loop. -/
structure Locals where
  socketPath : Option String
  options : Options
  deriving DecidableEq

def DEFAULT_LITERTLM_SYSTEM_PROMPT : String :=
  "You are a helpful conversational assistant running locally on a phone. " ++
  "Be concise — usually 1-3 sentences.\n" ++
  "\n" ++
  "You have access to one tool, `subagent_prompt`, that dispatches a question " ++
  "to a more capable expert subagent for research. Use it whenever you'd " ++
  "otherwise have to say \"I don't know\" or \"I'm not sure\" — questions " ++
  "about current events, recent news, time-sensitive facts, specialized " ++
  "domain knowledge you can't verify, or computations beyond what you can do " ++
  "reliably in your head.\n" ++
  "\n" ++
  "To call the tool, end your response with a single line in this exact format:\n" ++
  "\n" ++
  "SUBAGENT_PROMPT: <a complete, self-contained question the expert can " ++
  "answer with no other context>\n" ++
  "\n" ++
  "Frame the SUBAGENT_PROMPT as a fully-specified query — the subagent will " ++
  "not see this conversation. Give your best direct answer first if you have " ++
  "one, then the SUBAGENT_PROMPT line if you'd like it verified or extended. " ++
  "If you're confident, omit the SUBAGENT_PROMPT line entirely."

/-- What the variables are before the loop. -/
def Locals.init : Locals where
  socketPath := none
  options :=
    { backend := none
      modelPath := none
      modelName := none
      maxTokens := 4096
      maxSeqLen := 16384
      llamaBin := none
      llamaLibDir := none
      llamaNgl := 0
      litertlmAccel := "gpu"
      litertlmMaxNumTokens := 4096
      litertlmVisualTokenBudget := 512
      litertlmPrefixCacheSize := 8
      litertlmPrefixCacheTtlSecs := 900
      litertlmSystemPrompt := some DEFAULT_LITERTLM_SYSTEM_PROMPT
      litertlmCacheDir := none }

inductive Field where
  | socketPath
  | backend
  | modelPath
  | modelName
  | maxTokens
  | maxSeqLen
  | llamaBin
  | llamaLibDir
  | llamaNgl
  | litertlmAccel
  | litertlmMaxNumTokens
  | litertlmVisualTokenBudget
  | litertlmPrefixCacheSize
  | litertlmPrefixCacheTtlSecs
  | litertlmSystemPrompt
  | litertlmCacheDir
  deriving DecidableEq, Repr

/-- An assignment to one of the variables. -/
inductive Setting where
  | socketPath (path : Option String)
  | backend (kind : BackendKind)
  | modelPath (path : Option String)
  | modelName (name : Option String)
  | maxTokens (n : UInt64)
  | maxSeqLen (n : UInt32)
  | llamaBin (path : Option String)
  | llamaLibDir (path : Option String)
  | llamaNgl (n : Int32)
  | litertlmAccel (accel : String)
  | litertlmMaxNumTokens (n : Int32)
  | litertlmVisualTokenBudget (n : Int32)
  | litertlmPrefixCacheSize (n : UInt64)
  | litertlmPrefixCacheTtlSecs (n : UInt64)
  | litertlmSystemPrompt (prompt : Option String)
  | litertlmCacheDir (dir : Option String)

def Setting.field : Setting → Field
  | .socketPath _                 => .socketPath
  | .backend _                    => .backend
  | .modelPath _                  => .modelPath
  | .modelName _                  => .modelName
  | .maxTokens _                  => .maxTokens
  | .maxSeqLen _                  => .maxSeqLen
  | .llamaBin _                   => .llamaBin
  | .llamaLibDir _                => .llamaLibDir
  | .llamaNgl _                   => .llamaNgl
  | .litertlmAccel _              => .litertlmAccel
  | .litertlmMaxNumTokens _       => .litertlmMaxNumTokens
  | .litertlmVisualTokenBudget _  => .litertlmVisualTokenBudget
  | .litertlmPrefixCacheSize _    => .litertlmPrefixCacheSize
  | .litertlmPrefixCacheTtlSecs _ => .litertlmPrefixCacheTtlSecs
  | .litertlmSystemPrompt _       => .litertlmSystemPrompt
  | .litertlmCacheDir _           => .litertlmCacheDir

def Setting.apply (l : Locals) : Setting → Locals
  | .socketPath path              => { l with socketPath := path }
  | .backend kind                 => { l with options.backend := some kind }
  | .modelPath path               => { l with options.modelPath := path }
  | .modelName name               => { l with options.modelName := name }
  | .maxTokens n                  => { l with options.maxTokens := n }
  | .maxSeqLen n                  => { l with options.maxSeqLen := n }
  | .llamaBin path                => { l with options.llamaBin := path }
  | .llamaLibDir path             => { l with options.llamaLibDir := path }
  | .llamaNgl n                   => { l with options.llamaNgl := n }
  | .litertlmAccel accel          => { l with options.litertlmAccel := accel }
  | .litertlmMaxNumTokens n       => { l with options.litertlmMaxNumTokens := n }
  | .litertlmVisualTokenBudget n  => { l with options.litertlmVisualTokenBudget := n }
  | .litertlmPrefixCacheSize n    => { l with options.litertlmPrefixCacheSize := n }
  | .litertlmPrefixCacheTtlSecs n => { l with options.litertlmPrefixCacheTtlSecs := n }
  | .litertlmSystemPrompt prompt  => { l with options.litertlmSystemPrompt := prompt }
  | .litertlmCacheDir dir         => { l with options.litertlmCacheDir := dir }

/-- Why there are no arguments. -/
inductive Halt where
  | error (message : String)
  /-- the usage has been printed, and the process ends -/
  | help
  deriving DecidableEq, Repr

/-- What an option does. -/
inductive Arm where
  /-- it takes the next argument, if there is one -/
  | next (set : Option String → Setting)
  /-- it needs the next argument -/
  | value (set : String → Except String Setting)
  | plain (setting : Setting)
  | help
  | unknown

/-- `parse` for a number from `lo` to `hi`. -/
def number (option : String) (lo hi : ℤ) (set : ℤ → Setting) (v : String) : Except String Setting :=
  match readNumber lo hi v.toList with
  | .ok n    => .ok (set n)
  | .error e => .error s!"{option}: {e.text}"

def u64 (option : String) (set : UInt64 → Setting) : Arm :=
  .value (number option 0 (2 ^ 64 - 1) fun n => set (UInt64.ofNat n.toNat))

def u32 (option : String) (set : UInt32 → Setting) : Arm :=
  .value (number option 0 (2 ^ 32 - 1) fun n => set (UInt32.ofNat n.toNat))

def i32 (option : String) (set : Int32 → Setting) : Arm :=
  .value (number option (-2 ^ 31) (2 ^ 31 - 1) fun n => set (Int32.ofInt n))

section Parsing

-- `std::fs::read_to_string`
variable (readToString : String → Except String String)

/-- A prompt, or the file that it is in. -/
def systemPrompt (v : String) : Except String Setting :=
  match v.toList with
  | '@' :: path =>
    match readToString (String.ofList path) with
    | .ok text =>
      .ok (.litertlmSystemPrompt (some (String.ofList (text.toList.rdropWhile (· = '\n')))))
    | .error e => .error s!"--litertlm-system-prompt @{String.ofList path}: {e}"
  | _           => .ok (.litertlmSystemPrompt (some v))

def arm (option : String) : Arm :=
  match option with
  | "--socket"                         => .next .socketPath
  | "--backend"                        => .value fun v => (BackendKind.parse v).map .backend
  | "--model"                          => .next .modelPath
  | "--model-name"                     => .next .modelName
  | "--llama-bin"                      => .next .llamaBin
  | "--llama-lib-dir"                  => .next .llamaLibDir
  | "--llama-ngl"                      => i32 option .llamaNgl
  | "--litertlm-accel"                 => .value fun v => .ok (.litertlmAccel v)
  | "--litertlm-max-num-tokens"        => i32 option .litertlmMaxNumTokens
  | "--litertlm-visual-token-budget"   => i32 option .litertlmVisualTokenBudget
  | "--litertlm-prefix-cache-size"     => u64 option .litertlmPrefixCacheSize
  | "--litertlm-session-pool-size"     => u64 option .litertlmPrefixCacheSize
  | "--litertlm-prefix-cache-ttl-secs" => u64 option .litertlmPrefixCacheTtlSecs
  | "--litertlm-session-ttl-secs"      => u64 option .litertlmPrefixCacheTtlSecs
  | "--litertlm-system-prompt"         => .value (systemPrompt readToString)
  | "--litertlm-no-system-prompt"      => .plain (.litertlmSystemPrompt none)
  | "--litertlm-cache-dir"             => .next .litertlmCacheDir
  | "--max-tokens"                     => u64 option .maxTokens
  | "--max-seq-len"                    => u32 option .maxSeqLen
  | "-h" | "--help"                    => .help
  | _                                  => .unknown

/-- `while let Some(a) = args.next()`. -/
def parseLoop : List String → Locals → Except Halt Locals
  | [], l        => .ok l
  | a :: args, l =>
    match arm readToString a with
    | .next set =>
      match args with
      | []        => .ok (Setting.apply l (set none))
      | v :: args => parseLoop args (Setting.apply l (set (some v)))
    | .value set =>
      match args with
      | []        => .error (.error s!"{a} needs a value")
      | v :: args =>
        match set v with
        | .ok setting => parseLoop args (Setting.apply l setting)
        | .error e    => .error (.error e)
    | .plain setting => parseLoop args (Setting.apply l setting)
    | .help          => .error .help
    | .unknown       => .error (.error s!"unknown arg: {a}")

/-- `parse_args`, for the arguments behind the name of the program. -/
def parseArgs (args : List String) : Except Halt Args :=
  match parseLoop readToString args Locals.init with
  | .error e => .error e
  | .ok l    =>
    match l.socketPath with
    | some path => .ok ⟨path, l.options⟩
    | none      => .error (.error "--socket is required")

/-- The settings that a command line makes, in their order. -/
def settings : List String → Except Halt (List Setting)
  | []        => .ok []
  | a :: args =>
    match arm readToString a with
    | .next set =>
      match args with
      | []        => .ok [set none]
      | v :: args => (settings args).map (set (some v) :: ·)
    | .value set =>
      match args with
      | []        => .error (.error s!"{a} needs a value")
      | v :: args =>
        match set v with
        | .ok setting => (settings args).map (setting :: ·)
        | .error e    => .error (.error e)
    | .plain setting => (settings args).map (setting :: ·)
    | .help          => .error .help
    | .unknown       => .error (.error s!"unknown arg: {a}")

end Parsing

/-! ### The last option of a setting -/

variable {readToString : String → Except String String}

/-- The loop makes the settings one after the other. -/
lemma parseLoop_eq (args : List String) (l : Locals) : parseLoop readToString args l =
    (settings readToString args).map fun xs => xs.foldl Setting.apply l := by
  induction args using settings.induct readToString generalizing l with
  | case1 => rfl
  | case2 a set harm => simp [parseLoop, settings, harm, Except.map]
  | case3 a set harm v args ih =>
    simp only [parseLoop, settings, harm, ih]
    cases settings readToString args <;> rfl
  | case4 a set harm => simp [parseLoop, settings, harm, Except.map]
  | case5 a set harm v args setting hset ih =>
    simp only [parseLoop, settings, harm, hset, ih]
    cases settings readToString args <;> rfl
  | case6 a set harm v args e hset => simp [parseLoop, settings, harm, hset, Except.map]
  | case7 a args setting harm ih =>
    simp only [parseLoop, settings, harm, ih]
    cases settings readToString args <;> rfl
  | case8 a args harm => simp [parseLoop, settings, harm, Except.map]
  | case9 a args harm => simp [parseLoop, settings, harm, Except.map]

/-- `parse_args` from the settings of a command line. -/
def finish (l : Locals) : Except Halt Args :=
  match l.socketPath with
  | some path => .ok ⟨path, l.options⟩
  | none      => .error (.error "--socket is required")

lemma parseArgs_eq (args : List String) : parseArgs readToString args =
    (settings readToString args).bind fun xs => finish (xs.foldl Setting.apply Locals.init) := by
  rw [parseArgs, parseLoop_eq]
  cases settings readToString args <;> rfl

/-- An option that is written if there is a value. -/
def optional (option : String) : Option String → List String
  | none   => []
  | some v => [option, v]

/-- A command line for given arguments. -/
def render (a : Args) : List String :=
  ["--socket", a.socketPath] ++
  optional "--backend" (a.options.backend.map BackendKind.name) ++
  optional "--model" a.options.modelPath ++
  optional "--model-name" a.options.modelName ++
  optional "--llama-bin" a.options.llamaBin ++
  optional "--llama-lib-dir" a.options.llamaLibDir ++
  optional "--litertlm-cache-dir" a.options.litertlmCacheDir ++
  ["--max-tokens", toString a.options.maxTokens.toNat] ++
  ["--max-seq-len", toString a.options.maxSeqLen.toNat] ++
  ["--llama-ngl", toString a.options.llamaNgl.toInt] ++
  ["--litertlm-accel", a.options.litertlmAccel] ++
  ["--litertlm-max-num-tokens", toString a.options.litertlmMaxNumTokens.toInt] ++
  ["--litertlm-visual-token-budget", toString a.options.litertlmVisualTokenBudget.toInt] ++
  ["--litertlm-prefix-cache-size", toString a.options.litertlmPrefixCacheSize.toNat] ++
  ["--litertlm-prefix-cache-ttl-secs", toString a.options.litertlmPrefixCacheTtlSecs.toNat] ++
  (match a.options.litertlmSystemPrompt with
    | some prompt => ["--litertlm-system-prompt", prompt]
    | none        => ["--litertlm-no-system-prompt"])

variable (readToString) in
/-- Some arguments make some settings, whatever comes behind them. -/
def Sets (args : List String) (xs : List Setting) : Prop :=
  ∀ rest, settings readToString (args ++ rest) = (settings readToString rest).map (xs ++ ·)

namespace Sets

lemma append {args args' : List String} {xs xs' : List Setting} (h : Sets readToString args xs)
    (h' : Sets readToString args' xs') : Sets readToString (args ++ args') (xs ++ xs') := by
  intro rest
  rw [List.append_assoc, h, h']
  cases settings readToString rest <;> simp [Except.map]

lemma settings_eq {args : List String} {xs : List Setting} (h : Sets readToString args xs) :
    settings readToString args = .ok xs := by
  have hrest := h []
  rw [List.append_nil] at hrest
  rw [hrest]
  simp [settings, Except.map]

variable {option : String} {v : String} {setting : Setting}

lemma next {set : Option String → Setting} (harm : arm readToString option = .next set) :
    Sets readToString [option, v] [set (some v)] := by
  intro rest
  simp [settings, harm]

lemma value {set : String → Except String Setting} (harm : arm readToString option = .value set)
    (hset : set v = .ok setting) : Sets readToString [option, v] [setting] := by
  intro rest
  simp [settings, harm, hset]

lemma plain (harm : arm readToString option = .plain setting) :
    Sets readToString [option] [setting] := by
  intro rest
  simp [settings, harm]

lemma optional {α : Type} {text : α → String} {set : α → Setting}
    (h : ∀ v, Sets readToString [option, text v] [set v]) (o : Option α) :
    Sets readToString (Cli.optional option (o.map text)) (o.map set).toList := by
  cases o with
  | none =>
    intro rest
    cases hrest : settings readToString rest <;> simp [Cli.optional, hrest, Except.map]
  | some v => exact h v

lemma number {lo hi n : ℤ} {set : ℤ → Setting}
    (harm : arm readToString option = .value (number option lo hi set)) (hlo : lo ≤ 0)
    (hhi : 0 ≤ hi) (hle : lo ≤ n) (hge : n ≤ hi) :
    Sets readToString [option, toString n] [set n] := by
  apply value harm
  rw [Cli.number, readNumber_toString hlo hhi hle hge]

lemma u64 {set : UInt64 → Setting} (harm : arm readToString option = Cli.u64 option set)
    (n : UInt64) : Sets readToString [option, toString n.toNat] [set n] := by
  have hlt := n.toNat_lt
  have h := number (n := n.toNat) harm (by omega) (by omega) (by omega) (by omega)
  rw [Int.toNat_natCast, UInt64.ofNat_toNat] at h
  exact h

lemma u32 {set : UInt32 → Setting} (harm : arm readToString option = Cli.u32 option set)
    (n : UInt32) : Sets readToString [option, toString n.toNat] [set n] := by
  have hlt := n.toNat_lt
  have h := number (n := n.toNat) harm (by omega) (by omega) (by omega) (by omega)
  rw [Int.toNat_natCast, UInt32.ofNat_toNat] at h
  exact h

lemma i32 {set : Int32 → Setting} (harm : arm readToString option = Cli.i32 option set)
    (n : Int32) : Sets readToString [option, toString n.toInt] [set n] := by
  have hlow := n.le_toInt
  have hhigh := n.toInt_lt
  have h := number harm (by omega) (by omega) (n := n.toInt) (by omega) (by omega)
  rw [Int32.ofInt_toInt] at h
  exact h

lemma systemPrompt {prompt : String} (h : prompt.toList.head? ≠ some '@') :
    Sets readToString ["--litertlm-system-prompt", prompt]
      [.litertlmSystemPrompt (some prompt)] := by
  apply value rfl
  cases hprompt : prompt.toList with
  | nil => simp [Cli.systemPrompt, hprompt]
  | cons c cs =>
    have hc : c ≠ '@' := by
      rintro rfl
      simp [hprompt] at h
    simp [Cli.systemPrompt, hprompt, hc]

end Sets

/-- The settings of a written command line. -/
def written (a : Args) : List Setting :=
  [Setting.socketPath (some a.socketPath)] ++
  (a.options.backend.map Setting.backend).toList ++
  (a.options.modelPath.map (Setting.modelPath ∘ some)).toList ++
  (a.options.modelName.map (Setting.modelName ∘ some)).toList ++
  (a.options.llamaBin.map (Setting.llamaBin ∘ some)).toList ++
  (a.options.llamaLibDir.map (Setting.llamaLibDir ∘ some)).toList ++
  (a.options.litertlmCacheDir.map (Setting.litertlmCacheDir ∘ some)).toList ++
  [Setting.maxTokens a.options.maxTokens] ++
  [Setting.maxSeqLen a.options.maxSeqLen] ++
  [Setting.llamaNgl a.options.llamaNgl] ++
  [Setting.litertlmAccel a.options.litertlmAccel] ++
  [Setting.litertlmMaxNumTokens a.options.litertlmMaxNumTokens] ++
  [Setting.litertlmVisualTokenBudget a.options.litertlmVisualTokenBudget] ++
  [Setting.litertlmPrefixCacheSize a.options.litertlmPrefixCacheSize] ++
  [Setting.litertlmPrefixCacheTtlSecs a.options.litertlmPrefixCacheTtlSecs] ++
  [Setting.litertlmSystemPrompt a.options.litertlmSystemPrompt]

lemma sets_optional {option : String} {set : Option String → Setting}
    (harm : arm readToString option = .next set) (o : Option String) :
    Sets readToString (optional option o) (o.map (set ∘ some)).toList := by
  have hnext (v : String) : Sets readToString [option, id v] [(set ∘ some) v] := Sets.next harm
  have h := Sets.optional hnext o
  rwa [Option.map_id] at h

lemma sets_render {a : Args}
    (hprompt : ∀ prompt, a.options.litertlmSystemPrompt = some prompt →
      prompt.toList.head? ≠ some '@') :
    Sets readToString (render a) (written a) := by
  have hbackend (k : BackendKind) : Sets readToString ["--backend", k.name] [.backend k] := by
    apply Sets.value rfl
    rw [k.parse_name]
    rfl
  have hlast : Sets readToString
      (match a.options.litertlmSystemPrompt with
        | some prompt => ["--litertlm-system-prompt", prompt]
        | none        => ["--litertlm-no-system-prompt"])
      [.litertlmSystemPrompt a.options.litertlmSystemPrompt] := by
    cases h : a.options.litertlmSystemPrompt with
    | none => exact Sets.plain rfl
    | some prompt => exact Sets.systemPrompt (hprompt prompt h)
  exact Sets.next rfl
    |>.append (Sets.optional hbackend _)
    |>.append (sets_optional rfl _)
    |>.append (sets_optional rfl _)
    |>.append (sets_optional rfl _)
    |>.append (sets_optional rfl _)
    |>.append (sets_optional rfl _)
    |>.append (Sets.u64 rfl _)
    |>.append (Sets.u32 rfl _)
    |>.append (Sets.i32 rfl _)
    |>.append (Sets.value rfl rfl)
    |>.append (Sets.i32 rfl _)
    |>.append (Sets.i32 rfl _)
    |>.append (Sets.u64 rfl _)
    |>.append (Sets.u64 rfl _)
    |>.append hlast

/-- A setting that is made if there is a value, where there was none before. -/
lemma foldl_toList {α : Type} {xs : List Setting} {l : Locals} (set : α → Setting)
    (update : Option α → Locals) (hxs : xs.foldl Setting.apply l = update none)
    (hset : ∀ v, Setting.apply (update none) (set v) = update (some v)) (o : Option α) :
    (xs ++ (o.map set).toList).foldl Setting.apply l = update o := by
  rw [List.foldl_append, hxs]
  cases o with
  | none => rfl
  | some v => exact hset v

lemma foldl_written (a : Args) :
    (written a).foldl Setting.apply Locals.init = ⟨some a.socketPath, a.options⟩ := by
  have hsocket : [Setting.socketPath (some a.socketPath)].foldl Setting.apply Locals.init =
      ⟨some a.socketPath, { Locals.init.options with backend := none }⟩ := rfl
  have hbackend := foldl_toList .backend (fun o => ⟨some a.socketPath, { Locals.init.options with
    backend := o }⟩) hsocket (fun _ => rfl) a.options.backend
  have hmodelPath := foldl_toList (.modelPath ∘ some) (fun o => ⟨some a.socketPath,
    { Locals.init.options with backend := a.options.backend, modelPath := o }⟩)
    hbackend (fun _ => rfl) a.options.modelPath
  have hmodelName := foldl_toList (.modelName ∘ some) (fun o => ⟨some a.socketPath,
    { Locals.init.options with
      backend := a.options.backend, modelPath := a.options.modelPath, modelName := o }⟩)
    hmodelPath (fun _ => rfl) a.options.modelName
  have hllamaBin := foldl_toList (.llamaBin ∘ some) (fun o => ⟨some a.socketPath,
    { Locals.init.options with
      backend := a.options.backend, modelPath := a.options.modelPath,
      modelName := a.options.modelName, llamaBin := o }⟩)
    hmodelName (fun _ => rfl) a.options.llamaBin
  have hllamaLibDir := foldl_toList (.llamaLibDir ∘ some) (fun o => ⟨some a.socketPath,
    { Locals.init.options with
      backend := a.options.backend, modelPath := a.options.modelPath,
      modelName := a.options.modelName, llamaBin := a.options.llamaBin, llamaLibDir := o }⟩)
    hllamaBin (fun _ => rfl) a.options.llamaLibDir
  have hcacheDir := foldl_toList (.litertlmCacheDir ∘ some) (fun o => ⟨some a.socketPath,
    { Locals.init.options with
      backend := a.options.backend, modelPath := a.options.modelPath,
      modelName := a.options.modelName, llamaBin := a.options.llamaBin,
      llamaLibDir := a.options.llamaLibDir, litertlmCacheDir := o }⟩)
    hllamaLibDir (fun _ => rfl) a.options.litertlmCacheDir
  rw [written]
  iterate 9 rw [List.foldl_append]
  rw [hcacheDir]
  simp only [List.foldl_cons, List.foldl_nil, Setting.apply]

/-- Whatever arguments the server is to have, there is a command line for them, unless its system
prompt would be taken for a file. -/
theorem parseArgs_render (readToString : String → Except String String) (a : Args)
    (hprompt : ∀ prompt, a.options.litertlmSystemPrompt = some prompt →
      prompt.toList.head? ≠ some '@') :
    parseArgs readToString (render a) = .ok a := by
  rw [parseArgs_eq, (sets_render hprompt).settings_eq]
  simp only [Except.bind, foldl_written, finish]

def demoArgs : Args :=
  ⟨"/tmp/model.sock", { Locals.init.options with
    llamaNgl := -1, modelPath := some "--model", litertlmSystemPrompt := some "Be concise." }⟩

theorem parseArgs_render_demo : parseArgs .ok (render demoArgs) = .ok demoArgs := by
  apply parseArgs_render
  rintro prompt ⟨⟩
  decide

end ModelApi.Server.Cli
