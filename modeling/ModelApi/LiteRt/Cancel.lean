import ModelApi.LiteRt.Serve

/-!
# The cancel token

Arming and disarming as the blocking closure does it: the locals of the closure and the order in
which they are dropped, the mutex of the token, and the threads that call `cancel_in_flight`. What
the closure does in between is a step of the slot.
-/

namespace ModelApi.LiteRt

/-! ### The closure -/

/-- The locals of the blocking closure that the token depends on. -/
inductive Local where
  | conv
  | cancelGuard
  deriving DecidableEq, Repr

/-- In the order of their declarations. -/
def declared : List Local := [.conv, .cancelGuard]

/-- The locals in scope. -/
def Pc.locals : Pc → List Local
  | .ready _ _        => [.conv]
  | .sending _ _ _    => [.conv, .cancelGuard]
  | .generated _ _    => [.conv]
  | .recloned _ _ _   => [.conv]
  | .inserted _ _ _   => [.conv]
  | _                 => []

/-- A call inside the closure, or on its way out, with the locals that are still to be dropped. -/
inductive Frame where
  | running (pc : Pc)
  | leaving (outcome : Outcome) (locals : List Local)

def Frame.locals : Frame → List Local
  | .running pc        => pc.locals
  | .leaving _ locals  => locals

/-- The frame behind a step from `pc` to `pc'`. A `return`, a `?` and a panic leave with the locals
that were in scope. -/
def Frame.after (pc : Pc) : Pc → Frame
  | .unwinding outcome => .leaving outcome pc.locals
  | .done outcome      => .leaving outcome pc.locals
  | pc'                => .running pc'

structure ClosureCall where
  req : InferenceRequest
  frame : Frame

/-- A thread that calls `cancel_in_flight`. -/
inductive Signal where
  | idle
  /-- inside `handle.cancel()`, with the handle of call `i` and the mutex of the token -/
  | calling (i : ℕ)
  | returned (result : Bool)
  deriving DecidableEq, Repr

structure CancelState where
  shared : Shared
  calls : ℕ → Option ClosureCall
  signals : ℕ → Signal
  /-- the thread that holds the mutex of the token across a call -/
  lock : Option ℕ
  /-- the calls whose conversation has been dropped -/
  dropped : List ℕ

namespace CancelState

def init : CancelState where
  shared := State.init.shared
  calls _ := none
  signals _ := .idle
  lock := none
  dropped := []

variable (s : CancelState)

/-- The locals in scope in call `i`. -/
def locals (i : ℕ) : List Local := ((s.calls i).map fun c => c.frame.locals).getD []

/-- Call `i` is between arming its handle and disarming it. -/
def Armed (i : ℕ) : Prop := Local.cancelGuard ∈ s.locals i

/-- Call `i` has moved. -/
def move (i : ℕ) (req : InferenceRequest) (frame : Frame) (sh : Shared) : CancelState :=
  { s with
    shared := sh
    calls := Function.update s.calls i (some ⟨req, frame⟩) }

end CancelState

/-- A step of the slot and of the threads that cancel. The guard takes the mutex of the token when
it is made and when it is dropped; the locals are dropped in reverse order of their declarations. -/
inductive CancelStep (cfg : Config) : CancelState → CancelState → Prop where
  | tick (s : CancelState) (d : ℕ) :
      CancelStep cfg s { s with shared := { s.shared with now := s.shared.now + d } }
  | arrive (s : CancelState) (i : ℕ) (req : InferenceRequest) (h : s.calls i = none) :
      CancelStep cfg s (s.move i req (.running .entered) s.shared)
  | move (s : CancelState) (i : ℕ) {req : InferenceRequest} {pc pc' : Pc} {sh' : Shared}
      (h : s.calls i = some ⟨req, .running pc⟩) (hpc : ∀ outcome, pc ≠ .unwinding outcome)
      (hstep : CallStep cfg i req s.shared pc sh' pc')
      (hlock : (Local.cancelGuard ∈ (Frame.after pc pc').locals ↔ Local.cancelGuard ∈ pc.locals) ∨
        s.lock = none) :
      CancelStep cfg s (s.move i req (.after pc pc') sh')
  | dropGuard (s : CancelState) (i : ℕ) {req : InferenceRequest} {outcome : Outcome}
      {locals : List Local}
      (h : s.calls i = some ⟨req, .leaving outcome (locals ++ [.cancelGuard])⟩)
      (hlock : s.lock = none) :
      CancelStep cfg s
        (s.move i req (.leaving outcome locals) { s.shared with cancelToken := none })
  | dropConv (s : CancelState) (i : ℕ) {req : InferenceRequest} {outcome : Outcome}
      {locals : List Local}
      (h : s.calls i = some ⟨req, .leaving outcome (locals ++ [.conv])⟩) :
      CancelStep cfg s { s.move i req (.leaving outcome locals) s.shared with
        dropped := i :: s.dropped }
  | finds (s : CancelState) (thread : ℕ) {i : ℕ} (hlock : s.lock = none)
      (hidle : ∀ j, s.signals thread ≠ .calling j) (htoken : s.shared.cancelToken = some i) :
      CancelStep cfg s { s with
        signals := Function.update s.signals thread (.calling i)
        lock := some thread }
  | findsNone (s : CancelState) (thread : ℕ) (hlock : s.lock = none)
      (hidle : ∀ j, s.signals thread ≠ .calling j) (htoken : s.shared.cancelToken = none) :
      CancelStep cfg s { s with
        signals := Function.update s.signals thread (.returned false) }
  | cancels (s : CancelState) (thread : ℕ) {i : ℕ} (h : s.signals thread = .calling i) :
      CancelStep cfg s { s with
        signals := Function.update s.signals thread (.returned true)
        lock := none }

def cancelling (cfg : Config) : Lib.Machine CancelState where
  init s := s = CancelState.init
  step := CancelStep cfg

/-! ### The slot behind it -/

/-- Where the slot has the call. -/
def Frame.pc : Frame → Pc
  | .running pc              => pc
  | .leaving outcome locals  =>
    if Local.cancelGuard ∈ locals then .unwinding outcome else .done outcome

/-- The state of the slot. -/
def CancelState.slot (s : CancelState) : State :=
  ⟨s.shared, fun i => (s.calls i).map fun c => ⟨c.req, c.frame.pc⟩⟩

variable {cfg : Config} {s t : CancelState} {i : ℕ} {req : InferenceRequest}

lemma CancelState.slot_move (frame : Frame) (sh : Shared) :
    (s.move i req frame sh).slot =
      ⟨sh, Function.update s.slot.calls i (some ⟨req, frame.pc⟩)⟩ := by
  refine congrArg (State.mk sh) (funext fun j => ?_)
  by_cases hji : j = i
  · subst hji
    simp [CancelState.move]
  · simp [CancelState.move, hji, CancelState.slot]

lemma CancelState.slot_calls {frame : Frame} (h : s.calls i = some ⟨req, frame⟩) :
    s.slot.calls i = some ⟨req, frame.pc⟩ := by
  simp only [CancelState.slot, h]
  rfl

/-- Only the send loop is left with the guard in scope. -/
lemma CallStep.after_pc {sh sh' : Shared} {pc pc' : Pc} (h : CallStep cfg i req sh pc sh' pc')
    (hpc : ∀ outcome, pc ≠ .unwinding outcome) : (Frame.after pc pc').pc = pc' := by
  cases h with
  | unwind => exact absurd rfl (hpc _)
  | _ => rfl

/-! ### The locals in scope -/

lemma CancelState.locals_eq {frame : Frame} (h : s.calls i = some ⟨req, frame⟩) :
    s.locals i = frame.locals := by
  rw [CancelState.locals, h]
  rfl

/-- In every call the locals in scope are the first ones declared. -/
def CancelState.InOrder (s : CancelState) : Prop := ∀ i, s.locals i <+: declared

lemma Pc.locals_isPrefix (pc : Pc) : pc.locals <+: declared := by
  cases pc <;> simp [Pc.locals, declared]

lemma Frame.after_locals (pc pc' : Pc) :
    (Frame.after pc pc').locals = pc.locals ∨ (Frame.after pc pc').locals = pc'.locals := by
  cases pc' with
  | unwinding outcome => exact .inl rfl
  | done outcome => exact .inl rfl
  | _ => exact .inr rfl

lemma Frame.after_locals_isPrefix (pc pc' : Pc) : (Frame.after pc pc').locals <+: declared := by
  obtain h | h := Frame.after_locals pc pc'
  · rw [h]
    exact pc.locals_isPrefix
  · rw [h]
    exact pc'.locals_isPrefix

/-- The guard is dropped first. -/
lemma eq_of_isPrefix_cancelGuard {locals : List Local}
    (h : locals ++ [.cancelGuard] <+: declared) : locals = [.conv] := by
  match locals, h with
  | [], h => exact absurd h (by decide)
  | [.conv], _ => rfl
  | [.cancelGuard], h => exact absurd h (by decide)
  | _ :: _ :: _, h =>
    have hlen := h.length_le
    simp [declared] at hlen

lemma eq_of_isPrefix_conv {locals : List Local} (h : locals ++ [.conv] <+: declared) :
    locals = [] := by
  match locals, h with
  | [], _ => rfl
  | [.conv], h => exact absurd h (by decide)
  | [.cancelGuard], h => exact absurd h (by decide)
  | _ :: _ :: _, h =>
    have hlen := h.length_le
    simp [declared] at hlen

/-- The locals after call `i` has moved. -/
lemma CancelState.locals_move (frame : Frame) (sh : Shared) (j : ℕ) :
    (s.move i req frame sh).locals j = if j = i then frame.locals else s.locals j := by
  by_cases hji : j = i
  · simp [CancelState.locals, CancelState.move, hji]
  · simp [CancelState.locals, CancelState.move, hji]

lemma CancelState.InOrder.move (h : s.InOrder) {frame : Frame} (hframe : frame.locals <+: declared)
    (sh : Shared) : (s.move i req frame sh).InOrder := by
  intro j
  rw [CancelState.locals_move]
  split
  · exact hframe
  · exact h j

lemma CancelStep.inOrder (h : CancelStep cfg s t) (hs : s.InOrder) : t.InOrder := by
  cases h with
  | tick d => exact hs
  | arrive i req h =>
    refine hs.move ?_ _
    exact List.nil_prefix
  | @move i req pc pc' sh' h hpc hstep hlock =>
    exact hs.move (Frame.after_locals_isPrefix pc pc') _
  | @dropGuard i req outcome locals h hlock =>
    have hlocals := hs i
    rw [CancelState.locals_eq h] at hlocals
    exact hs.move ((List.prefix_append _ _).trans hlocals) _
  | @dropConv i req outcome locals h =>
    have hlocals := hs i
    rw [CancelState.locals_eq h] at hlocals
    exact hs.move ((List.prefix_append _ _).trans hlocals) s.shared
  | finds => exact hs
  | findsNone => exact hs
  | cancels => exact hs

/-! ### The slot again -/

/-- What the closure and the threads do is a step of the slot, or nothing to it. -/
lemma CancelStep.slot (h : CancelStep cfg s t) (hs : s.InOrder) :
    t.slot = s.slot ∨ Step cfg s.slot t.slot := by
  cases h with
  | tick d => exact .inr (.tick s.slot d)
  | arrive i req h =>
    refine .inr ?_
    rw [CancelState.slot_move]
    exact .arrive s.slot i req (by simp [CancelState.slot, h])
  | @move i req pc pc' sh' h hpc hstep hlock =>
    refine .inr ?_
    rw [CancelState.slot_move, hstep.after_pc hpc]
    exact .call s.slot i (CancelState.slot_calls h) hstep
  | @dropGuard i req outcome locals h hlock =>
    have hlocals := hs i
    rw [CancelState.locals_eq h] at hlocals
    obtain rfl := eq_of_isPrefix_cancelGuard hlocals
    refine .inr ?_
    rw [CancelState.slot_move]
    exact .call s.slot i (CancelState.slot_calls h) .unwind
  | @dropConv i req outcome locals h =>
    have hlocals := hs i
    rw [CancelState.locals_eq h] at hlocals
    obtain rfl := eq_of_isPrefix_conv hlocals
    refine .inl ((CancelState.slot_move _ _).trans ?_)
    have hcalls := (CancelState.slot_calls h).symm
    exact congrArg (State.mk s.shared) (Function.update_eq_self_iff.mpr hcalls)
  | finds => exact .inl rfl
  | findsNone => exact .inl rfl
  | cancels => exact .inl rfl

lemma inOrder_of_reachable (hs : (cancelling cfg).Reachable s) : s.InOrder := by
  refine hs.invariant (P := CancelState.InOrder) ?_
    (fun _ _ (hst : CancelStep cfg _ _) => hst.inOrder)
  rintro _ rfl i
  exact List.nil_prefix

/-- Every run with the threads that cancel is a run of the slot. -/
theorem slot_reachable (hs : (cancelling cfg).Reachable s) : (slot cfg).Reachable s.slot := by
  refine hs.run_induction (P := fun s => (slot cfg).Reachable s.slot) ?_ ?_
  · rintro _ rfl
    exact .of_init rfl
  · intro s t hs (hst : CancelStep cfg s t) hslot
    obtain heq | hstep := hst.slot (inOrder_of_reachable hs)
    · rwa [heq]
    · exact hslot.step hstep

/-! ### The token -/

/-- What a step does to the token and to who is armed. -/
inductive TokenEffect (s t : CancelState) : Prop where
  | arms (i : ℕ) (hlock : s.lock = none) (htoken : t.shared.cancelToken = some i)
      (harmed : t.Armed i) (hothers : ∀ j, j ≠ i → (t.Armed j ↔ s.Armed j))
  | disarms (i : ℕ) (hlock : s.lock = none) (htoken : t.shared.cancelToken = none)
      (harmed : s.Armed i) (hnot : ¬ t.Armed i) (hothers : ∀ j, j ≠ i → (t.Armed j ↔ s.Armed j))
  | none (htoken : t.shared.cancelToken = s.shared.cancelToken)
      (hsame : ∀ j, t.Armed j ↔ s.Armed j)

lemma CancelState.armed_move_of_ne {frame : Frame} {sh : Shared} {j : ℕ} (hji : j ≠ i) :
    (s.move i req frame sh).Armed j ↔ s.Armed j := by
  rw [CancelState.Armed, CancelState.locals_move, if_neg hji, CancelState.Armed]

lemma CancelState.armed_move_self {frame : Frame} {sh : Shared} :
    (s.move i req frame sh).Armed i ↔ Local.cancelGuard ∈ frame.locals := by
  rw [CancelState.Armed, CancelState.locals_move, if_pos rfl]

/-- Who is armed after a move that leaves the guard as it is. -/
lemma CancelState.armed_move {frame frame' : Frame} (h : s.calls i = some ⟨req, frame⟩)
    (hguard : Local.cancelGuard ∈ frame'.locals ↔ Local.cancelGuard ∈ frame.locals) (sh : Shared)
    (j : ℕ) :
    (s.move i req frame' sh).Armed j ↔ s.Armed j := by
  by_cases hji : j = i
  · rw [hji, CancelState.armed_move_self, hguard, CancelState.Armed, CancelState.locals_eq h]
  · exact CancelState.armed_move_of_ne hji

lemma CallStep.tokenEffect {pc pc' : Pc} {sh' : Shared} (hs : s.calls i = some ⟨req, .running pc⟩)
    (hpc : ∀ outcome, pc ≠ .unwinding outcome) (hstep : CallStep cfg i req s.shared pc sh' pc')
    (hlock : (Local.cancelGuard ∈ (Frame.after pc pc').locals ↔ Local.cancelGuard ∈ pc.locals) ∨
      s.lock = none) : TokenEffect s (s.move i req (.after pc pc') sh') := by
  have quiet (htoken : sh'.cancelToken = s.shared.cancelToken)
      (hguard : Local.cancelGuard ∈ (Frame.after pc pc').locals ↔ Local.cancelGuard ∈ pc.locals) :
      TokenEffect s (s.move i req (.after pc pc') sh') :=
    .none htoken (CancelState.armed_move hs hguard sh')
  cases hstep with
  | arm =>
    have hfree := hlock.resolve_left (by simp [Frame.after, Frame.locals, Pc.locals])
    exact .arms i hfree rfl
      (CancelState.armed_move_self.mpr (List.mem_cons_of_mem _ List.mem_cons_self))
      fun _ => CancelState.armed_move_of_ne
  | disarm =>
    have hfree := hlock.resolve_left (by simp [Frame.after, Frame.locals, Pc.locals])
    refine .disarms i hfree rfl ?_ ?_ fun _ => CancelState.armed_move_of_ne
    · rw [CancelState.Armed, CancelState.locals_eq hs]
      exact List.mem_cons_of_mem _ List.mem_cons_self
    · rw [CancelState.armed_move_self]
      simp [Frame.after, Frame.locals, Pc.locals]
  | unwind => exact absurd rfl (hpc _)
  | hit => exact quiet rfl (by simp [Frame.after, Frame.locals, Pc.locals])
  | create => exact quiet rfl (by simp [Frame.after, Frame.locals, Pc.locals])
  | _ => exact quiet rfl Iff.rfl

lemma CancelStep.tokenEffect (h : CancelStep cfg s t) (hs : s.InOrder) : TokenEffect s t := by
  cases h with
  | arrive i req h =>
    refine .none rfl fun j => ?_
    by_cases hji : j = i
    · rw [hji, CancelState.armed_move_self, CancelState.Armed, CancelState.locals, h]
      exact Iff.rfl
    · exact CancelState.armed_move_of_ne hji
  | move i h hpc hstep hlock => exact hstep.tokenEffect h hpc hlock
  | @dropGuard i req outcome locals h hlock =>
    have hlocals := hs i
    rw [CancelState.locals_eq h] at hlocals
    obtain rfl := eq_of_isPrefix_cancelGuard hlocals
    refine .disarms i hlock rfl ?_ ?_ fun _ => CancelState.armed_move_of_ne
    · rw [CancelState.Armed, CancelState.locals_eq h]
      exact List.mem_append_right _ List.mem_cons_self
    · rw [CancelState.armed_move_self]
      simp [Frame.locals]
  | @dropConv i req outcome locals h =>
    have hguard : Local.cancelGuard ∈ (Frame.leaving outcome locals).locals ↔
        Local.cancelGuard ∈ (Frame.leaving outcome (locals ++ [.conv])).locals := by
      simp [Frame.locals]
    exact .none rfl (CancelState.armed_move h hguard s.shared)
  | _ => exact .none rfl fun j => Iff.rfl

/-- What holds of the token in every reachable state. -/
structure TokenInv (s : CancelState) : Prop where
  inOrder : s.InOrder
  /-- the handle belongs to a call that is armed -/
  armed : ∀ i, s.shared.cancelToken = some i → s.Armed i
  /-- who is inside `handle.cancel()` has the mutex, so the token is as it was -/
  calling : ∀ thread i, s.signals thread = .calling i →
    s.lock = some thread ∧ s.shared.cancelToken = some i
  /-- a conversation is dropped last -/
  dropped : ∀ i ∈ s.dropped, ∃ req outcome, s.calls i = some ⟨req, .leaving outcome []⟩

lemma tokenInv_init : TokenInv CancelState.init where
  inOrder _ := List.nil_prefix
  armed _ h := by cases h
  calling _ _ h := by cases h
  dropped _ h := by cases h

lemma CancelStep.armed (h : CancelStep cfg s t) (hs : TokenInv s) {i : ℕ}
    (hi : t.shared.cancelToken = some i) : t.Armed i := by
  cases h.tokenEffect hs.inOrder with
  | arms j _ htoken harmed _ =>
    rw [htoken] at hi
    cases hi
    exact harmed
  | disarms j _ htoken => rw [htoken] at hi; cases hi
  | none htoken hsame =>
    rw [htoken] at hi
    exact (hsame i).mpr (hs.armed i hi)

/-- While a thread cancels, the token does not change. -/
lemma CancelStep.cancelToken_eq (h : CancelStep cfg s t) (hs : s.InOrder) {thread : ℕ}
    (hlock : s.lock = some thread) : t.shared.cancelToken = s.shared.cancelToken := by
  cases h.tokenEffect hs with
  | arms _ hfree => rw [hfree] at hlock; cases hlock
  | disarms _ hfree => rw [hfree] at hlock; cases hlock
  | none htoken => exact htoken

lemma eq_or_of_update {signals : ℕ → Signal} {thread thread' : ℕ} {x y : Signal}
    (h : Function.update signals thread' x thread = y) :
    thread = thread' ∧ x = y ∨ thread ≠ thread' ∧ signals thread = y := by
  by_cases hthread : thread = thread'
  · subst hthread
    rw [Function.update_self] at h
    exact .inl ⟨rfl, h⟩
  · rw [Function.update_of_ne hthread] at h
    exact .inr ⟨hthread, h⟩

lemma CancelStep.calling (h : CancelStep cfg s t) (hs : TokenInv s) {thread i : ℕ}
    (hi : t.signals thread = .calling i) :
    t.lock = some thread ∧ t.shared.cancelToken = some i := by
  have kept : s.signals thread = .calling i → t.lock = s.lock →
      t.lock = some thread ∧ t.shared.cancelToken = some i := by
    intro hcalling hlock
    obtain ⟨hs', htoken⟩ := hs.calling thread i hcalling
    exact ⟨hlock.trans hs', (h.cancelToken_eq hs.inOrder hs').trans htoken⟩
  cases h with
  | finds thread' hlock hidle htoken =>
    obtain ⟨rfl, hcalling⟩ | ⟨-, hcalling⟩ := eq_or_of_update hi
    · cases hcalling
      exact ⟨rfl, htoken⟩
    · obtain ⟨hs', -⟩ := hs.calling thread i hcalling
      rw [hlock] at hs'
      cases hs'
  | findsNone thread' =>
    obtain ⟨rfl, hcalling⟩ | ⟨-, hcalling⟩ := eq_or_of_update hi
    · cases hcalling
    · exact kept hcalling rfl
  | cancels thread' h =>
    obtain ⟨rfl, hcalling⟩ | ⟨hne, hcalling⟩ := eq_or_of_update hi
    · cases hcalling
    · -- two threads do not hold the mutex at once
      obtain ⟨hs', -⟩ := hs.calling thread i hcalling
      obtain ⟨hs'', -⟩ := hs.calling thread' _ h
      exact absurd (Option.some.inj (hs'.symm.trans hs'')) hne
  | _ => exact kept hi rfl

/-- A call that has left the closure does not move any more. -/
lemma CancelStep.left (h : CancelStep cfg s t) {i : ℕ} {req : InferenceRequest} {outcome : Outcome}
    (hi : s.calls i = some ⟨req, .leaving outcome []⟩) :
    t.calls i = some ⟨req, .leaving outcome []⟩ := by
  have other : ∀ {j : ℕ} {req' : InferenceRequest} {frame : Frame} (sh : Shared), i ≠ j →
      (s.move j req' frame sh).calls i = some ⟨req, .leaving outcome []⟩ :=
    fun _ hij => (Function.update_of_ne hij ..).trans hi
  cases h with
  | arrive j req' h =>
    exact other _ fun hij => by rw [hij, h] at hi; cases hi
  | move j h =>
    exact other _ fun hij => by rw [hij, h] at hi; cases hi
  | @dropGuard j req' outcome' locals h =>
    refine other _ fun hij => ?_
    rw [hij, h] at hi
    simp at hi
  | @dropConv j req' outcome' locals h =>
    refine other s.shared fun hij => ?_
    rw [hij, h] at hi
    simp at hi
  | _ => exact hi

lemma CancelStep.dropped (h : CancelStep cfg s t) (hs : TokenInv s) {i : ℕ} (hi : i ∈ t.dropped) :
    ∃ req outcome, t.calls i = some ⟨req, .leaving outcome []⟩ := by
  have kept : i ∈ s.dropped → ∃ req outcome, t.calls i = some ⟨req, .leaving outcome []⟩ := by
    intro hdropped
    obtain ⟨req, outcome, hcall⟩ := hs.dropped i hdropped
    exact ⟨req, outcome, h.left hcall⟩
  cases h with
  | @dropConv j req outcome locals h =>
    obtain rfl | hdropped := List.mem_cons.mp hi
    · have hlocals := hs.inOrder i
      rw [CancelState.locals_eq h] at hlocals
      obtain rfl := eq_of_isPrefix_conv hlocals
      exact ⟨req, outcome, Function.update_self ..⟩
    · exact kept hdropped
  | _ => exact kept hi

lemma tokenInv_of_reachable (hs : (cancelling cfg).Reachable s) : TokenInv s := by
  refine hs.invariant (P := TokenInv) ?_ fun s t (hst : CancelStep cfg s t) h => ?_
  · rintro _ rfl
    exact tokenInv_init
  · exact ⟨hst.inOrder h.inOrder, fun _ => hst.armed h, fun _ _ => hst.calling h,
      fun _ => hst.dropped h⟩

/-- A call that is armed has its conversation. -/
lemma TokenInv.not_dropped (hs : TokenInv s) {i : ℕ} (hi : s.Armed i) : i ∉ s.dropped := by
  intro hdropped
  obtain ⟨req, outcome, hcall⟩ := hs.dropped i hdropped
  rw [CancelState.Armed, CancelState.locals_eq hcall] at hi
  cases hi

/-! ### A call that arms its handle -/

lemma CancelState.move_move {frame frame' : Frame} {sh sh' : Shared} :
    (s.move i req frame sh).move i req frame' sh' = s.move i req frame' sh' := by
  simp [CancelState.move]

lemma cancelStep_move {pc pc' : Pc} {sh sh' : Shared} (hlock : s.lock = none)
    (hstep : CallStep cfg i req sh pc sh' pc') (hpc : ∀ outcome, pc ≠ .unwinding outcome) :
    CancelStep cfg (s.move i req (.running pc) sh) (s.move i req (.after pc pc') sh') := by
  have h : CancelStep cfg (s.move i req (.running pc) sh) _ :=
    .move _ i (Function.update_self ..) hpc hstep (.inr hlock)
  rwa [CancelState.move_move] at h

/-- A call that finds nothing cached arms the handle of a new conversation. -/
lemma steps_armed {M : Lib.Machine CancelState} (i : ℕ) (req : InferenceRequest)
    (hfree : s.calls i = none) (hlock : s.lock = none)
    (hcache : s.shared.cache = ∅) (hmsgs : sendableContents (turnsOf req) ≠ [])
    (harrive : ∀ t, CancelStep cfg s t → M.step s t)
    (hM : ∀ frame sh t, Local.cancelGuard ∉ frame.locals →
      CancelStep cfg (s.move i req frame sh) t → M.step (s.move i req frame sh) t) :
    M.Steps s (s.move i req
      (.running (.sending ⟨cfg.systemPrompt req, cfg.samplerForRequest req, []⟩
      (sendableContents (turnsOf req)) "")) { s.shared with cancelToken := some i }) := by
  obtain ⟨hturns, hne⟩ := inputToTurns_of_sendable (n := 0) hmsgs
  have hmiss : ∀ h n, choosePrefix cfg s.shared.cache s.shared.now
      (sessionPin s.shared.sessions req.session) (cfg.prefixOf req) = some (h, n) → n = 0 := by
    intro h n hchosen
    obtain ⟨-, -, hlive⟩ := choosePrefix_eq_some hchosen
    rw [liveAt, hcache] at hlive
    cases hlive
  refine .head (harrive _ (.arrive s i req hfree)) ?_
  refine .head
    (hM _ _ _ List.not_mem_nil (cancelStep_move hlock (.readPin hturns hne) (by simp))) ?_
  refine .head (hM _ _ _ List.not_mem_nil (cancelStep_move hlock (.miss hmiss) (by simp))) ?_
  refine .head (hM _ _ _ List.not_mem_nil (cancelStep_move hlock .create (by simp))) ?_
  refine .single (hM _ _ _ ?_ (cancelStep_move hlock (.arm (n := 0) hmsgs) (by simp)))
  simp [Frame.after, Frame.locals, Pc.locals]

def greeting : InferenceRequest := .plain .stateless [.user "hi"]

/-- A call that has just begun to stream. -/
def armedFirst : CancelState :=
  CancelState.init.move 0 greeting (.running (.sending
    ⟨demoConfig.systemPrompt greeting, demoConfig.samplerForRequest greeting, []⟩ ["hi"] ""))
    { CancelState.init.shared with cancelToken := some 0 }

lemma armedFirst_reachable : (cancelling demoConfig).Reachable armedFirst :=
  ⟨_, rfl, steps_armed 0 greeting rfl rfl rfl (List.cons_ne_nil _ _) (fun _ h => h)
    fun _ _ _ _ h => h⟩

/-- A thread is cancelling that call. -/
def cancellingFirst : CancelState :=
  { armedFirst with signals := Function.update armedFirst.signals 0 (.calling 0), lock := some 0 }

lemma cancellingFirst_step : CancelStep demoConfig armedFirst cancellingFirst :=
  .finds armedFirst 0 rfl nofun rfl

/-! ### No stale handle -/

/-- In every state that any interleaving of calls and cancelling threads reaches: the conversation
of the handle in the token has not been dropped, nor has that of a handle a thread is calling. -/
theorem cancel_handle_valid (hs : (cancelling cfg).Reachable s) :
    (∀ i, s.shared.cancelToken = some i → i ∉ s.dropped) ∧
      ∀ thread i, s.signals thread = .calling i → i ∉ s.dropped := by
  have hinv := tokenInv_of_reachable hs
  refine ⟨fun i hi => hinv.not_dropped (hinv.armed i hi), fun thread i hi => ?_⟩
  obtain ⟨-, htoken⟩ := hinv.calling thread i hi
  exact hinv.not_dropped (hinv.armed i htoken)

theorem cancel_handle_valid_demo : (cancelling demoConfig).Reachable cancellingFirst ∧
    cancellingFirst.signals 0 = .calling 0 ∧ 0 ∉ cancellingFirst.dropped := by
  have hreach : (cancelling demoConfig).Reachable cancellingFirst :=
    armedFirst_reachable.step cancellingFirst_step
  exact ⟨hreach, rfl, (cancel_handle_valid hreach).2 0 0 rfl⟩

/-! ### Who can be cancelled -/

/-- Whenever a call is armed, `cancel_in_flight` finds the handle of an armed call, and a thread
that is inside it or leaves it has found one, unless no call was armed. -/
structure Delivers (cfg : Config) (s : CancelState) : Prop where
  finds : (∃ i, s.Armed i) → ∃ j, s.shared.cancelToken = some j ∧ s.Armed j
  calling : ∀ thread i, s.signals thread = .calling i → s.Armed i
  returnsTrue : ∀ thread t, CancelStep cfg s t → t.signals thread ≠ s.signals thread →
    t.signals thread = .returned true → ∃ i, s.signals thread = .calling i ∧ s.Armed i
  returnsFalse : ∀ thread t, CancelStep cfg s t → t.signals thread ≠ s.signals thread →
    t.signals thread = .returned false → ∀ i, ¬ s.Armed i

/-- The runs in which a call disarms only while no other one is armed. -/
def exclusive (cfg : Config) : Lib.Machine CancelState where
  init s := s = CancelState.init
  step s t := CancelStep cfg s t ∧ ∀ i, s.Armed i → ¬ t.Armed i → ∀ j, j ≠ i → ¬ s.Armed j

lemma exclusive_steps (hs : (exclusive cfg).Reachable s) : (cancelling cfg).Reachable s := by
  refine hs.run_induction (P := (cancelling cfg).Reachable) ?_ fun s t _ hst hs => ?_
  · rintro _ rfl
    exact .of_init rfl
  · exact hs.step hst.1

/-- Where a thread that returns has come from. -/
lemma CancelStep.returned (h : CancelStep cfg s t) {thread : ℕ} {result : Bool}
    (hne : t.signals thread ≠ s.signals thread) (hret : t.signals thread = .returned result) :
    match result with
    | true  => ∃ i, s.signals thread = .calling i
    | false => s.shared.cancelToken = none := by
  cases h with
  | finds thread' =>
    obtain ⟨rfl, hcalling⟩ | ⟨-, hsame⟩ := eq_or_of_update hret
    · cases hcalling
    · exact absurd (hret.trans hsame.symm) hne
  | findsNone thread' _ _ htoken =>
    obtain ⟨rfl, hfalse⟩ | ⟨-, hsame⟩ := eq_or_of_update hret
    · cases hfalse
      exact htoken
    · exact absurd (hret.trans hsame.symm) hne
  | cancels thread' h =>
    obtain ⟨rfl, htrue⟩ | ⟨-, hsame⟩ := eq_or_of_update hret
    · cases htrue
      exact ⟨_, h⟩
    · exact absurd (hret.trans hsame.symm) hne
  | _ => exact absurd rfl hne

/-- An armed call keeps the token from being empty, as long as calls disarm one at a time. -/
lemma exclusive_token (h : (exclusive cfg).step s t) (hs : s.InOrder)
    (htoken : ∀ i, s.Armed i → s.shared.cancelToken ≠ none) :
    ∀ i, t.Armed i → t.shared.cancelToken ≠ none := by
  obtain ⟨hstep, halone⟩ := h
  intro i hi
  cases hstep.tokenEffect hs with
  | arms j _ hset => rw [hset]; exact Option.some_ne_none j
  | disarms j _ _ harmed hnot hothers =>
    by_cases hij : i = j
    · rw [hij] at hi
      exact absurd hi hnot
    · exact absurd ((hothers i hij).mp hi) (halone j harmed hnot i hij)
  | none hset hsame =>
    rw [hset]
    exact htoken i ((hsame i).mp hi)

lemma delivers_of_token (hs : TokenInv s)
    (htoken : ∀ i, s.Armed i → s.shared.cancelToken ≠ none) : Delivers cfg s where
  finds := by
    rintro ⟨i, hi⟩
    obtain ⟨j, hj⟩ := Option.ne_none_iff_exists'.mp (htoken i hi)
    exact ⟨j, hj, hs.armed j hj⟩
  calling thread i hi := hs.armed i (hs.calling thread i hi).2
  returnsTrue thread t hst hne hret := by
    obtain ⟨i, hi⟩ := hst.returned hne hret
    exact ⟨i, hi, hs.armed i (hs.calling thread i hi).2⟩
  returnsFalse thread t hst hne hret i hi := htoken i hi (hst.returned hne hret)

/-- In every run in which calls disarm only while no other one is armed, `cancel_in_flight` reaches
an armed call in every state; and whenever one disarms while another one is armed, it does not. -/
theorem cancel_delivers (cfg : Config) :
    (∀ s, (exclusive cfg).Reachable s → Delivers cfg s) ∧
      ∀ s t i j, (cancelling cfg).Reachable s → CancelStep cfg s t → s.Armed i → ¬ t.Armed i →
        j ≠ i → s.Armed j → t.Armed j ∧ ¬ Delivers cfg t := by
  constructor
  · intro s hs
    have hinv := tokenInv_of_reachable (exclusive_steps hs)
    refine delivers_of_token hinv ?_
    refine hs.run_induction (P := fun s => ∀ i, s.Armed i → s.shared.cancelToken ≠ none) ?_ ?_
    · rintro _ rfl i hi
      cases hi
    · intro s t hs hst htoken
      exact exclusive_token hst (inOrder_of_reachable (exclusive_steps hs)) htoken
  · intro s t i j hs hst hi hnot hji hj
    cases hst.tokenEffect (inOrder_of_reachable hs) with
    | arms k _ _ hk hothers =>
      have hik : i ≠ k := by
        rintro rfl
        exact hnot hk
      exact absurd ((hothers i hik).mpr hi) hnot
    | disarms k _ htoken hk hnot' hothers =>
      have hik : i = k := by
        by_contra hne
        exact hnot ((hothers i hne).mpr hi)
      have hj' : t.Armed j := (hothers j (hik ▸ hji)).mpr hj
      refine ⟨hj', fun hdelivers => ?_⟩
      obtain ⟨_, hsome, -⟩ := hdelivers.finds ⟨j, hj'⟩
      rw [htoken] at hsome
      cases hsome
    | none _ hsame => exact absurd ((hsame i).mpr hi) hnot

theorem cancel_delivers_demo : (exclusive demoConfig).Reachable armedFirst ∧
    Delivers demoConfig armedFirst := by
  have hnone : ∀ i, ¬ CancelState.init.Armed i := fun i hi => by cases hi
  have hreach : (exclusive demoConfig).Reachable armedFirst := by
    refine ⟨_, rfl, steps_armed 0 greeting rfl rfl rfl (List.cons_ne_nil _ _) ?_ ?_⟩
    · exact fun t h => ⟨h, fun i hi => absurd hi (hnone i)⟩
    · intro frame sh t hframe h
      refine ⟨h, fun i hi => ?_⟩
      by_cases hi0 : i = 0
      · subst hi0
        exact absurd (CancelState.armed_move_self.mp hi) hframe
      · exact absurd ((CancelState.armed_move_of_ne hi0).mp hi) (hnone i)
  exact ⟨hreach, (cancel_delivers demoConfig).1 _ hreach⟩

/-- The second of two calls disarms, and the first one can no longer be cancelled. -/
theorem not_delivers : ¬ ∀ (cfg : Config) (s : CancelState), (cancelling cfg).Reachable s →
    Delivers cfg s := by
  intro h
  have hsecond := armedFirst_reachable.steps (steps_armed 1 greeting rfl rfl rfl
    (List.cons_ne_nil _ _) (fun _ h => h) fun _ _ _ _ h => h)
  have hsent := hsecond.step (cancelStep_move rfl (.send "a1") nofun)
  have hdisarmed := hsent.step (cancelStep_move rfl .disarm nofun)
  have harmed : armedFirst.Armed 0 := CancelState.armed_move_self.mpr (by decide)
  obtain ⟨i, hi, -⟩ := (h demoConfig _ hdisarmed).finds
    ⟨0, (CancelState.armed_move_of_ne Nat.zero_ne_one).mpr harmed⟩
  cases hi

end ModelApi.LiteRt
