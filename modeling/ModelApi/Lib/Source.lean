import Mathlib

/-!
# Reading from a byte source

A source is the sequence of what the coming read calls meet: runs of available bytes, errors,
and at last the end of the file, or nothing yet. A call that would have to wait has no result.
-/

namespace ModelApi.Lib

/-- What one read call meets: at least one byte, or an error. -/
inductive Chunk (ε : Type) where
  | data (b : UInt8) (bs : List UInt8)
  | fault (e : ε)
  deriving DecidableEq, Repr

/-- The chunks ahead, and whether the file ends behind them. -/
structure Source (ε : Type) where
  chunks : List (Chunk ε)
  eof : Bool
  deriving DecidableEq, Repr

variable {ε : Type}

def Chunk.bytes : Chunk ε → List UInt8
  | .data b bs => b :: bs
  | .fault _   => []

namespace Source

/-- The bytes ahead. -/
def bytes (src : Source ε) : List UInt8 := src.chunks.flatMap Chunk.bytes

/-- Put bytes that were not asked for back in front. -/
def unread : List UInt8 → Source ε → Source ε
  | [], src      => src
  | b :: bs, src => ⟨.data b bs :: src.chunks, src.eof⟩

/-- One `read` into a buffer of `n` bytes. At the end of the file it returns no bytes. -/
def read (n : ℕ) : Source ε → Option (Except ε (List UInt8) × Source ε)
  | ⟨[], false⟩                  => none
  | ⟨[], true⟩                   => some (.ok [], ⟨[], true⟩)
  | ⟨.fault e :: chunks, eof⟩    => some (.error e, ⟨chunks, eof⟩)
  | ⟨.data b bs :: chunks, eof⟩  =>
    some (.ok ((b :: bs).take n), unread ((b :: bs).drop n) ⟨chunks, eof⟩)

/-- `read_exact`: read until `n` bytes have arrived. Some errors are retried, and the end of the
file is an error. -/
def readExact (retry : ε → Bool) (unexpectedEof : ε) :
    ℕ → List (Chunk ε) → Bool → Option (Except ε (List UInt8) × Source ε)
  | 0, chunks, eof                   => some (.ok [], ⟨chunks, eof⟩)
  | _ + 1, [], false                 => none
  | _ + 1, [], true                  => some (.error unexpectedEof, ⟨[], true⟩)
  | n + 1, .fault e :: chunks, eof   =>
    if retry e then readExact retry unexpectedEof (n + 1) chunks eof
    else some (.error e, ⟨chunks, eof⟩)
  | n + 1, .data b bs :: chunks, eof =>
    if n < bs.length then some (.ok ((b :: bs).take (n + 1)),
      unread ((b :: bs).drop (n + 1)) ⟨chunks, eof⟩)
    else match readExact retry unexpectedEof (n - bs.length) chunks eof with
      | some (.ok more, src) => some (.ok (b :: bs ++ more), src)
      | result               => result

variable {retry : ε → Bool} {unexpectedEof : ε}

@[simp] lemma bytes_mk_nil (eof : Bool) : bytes (⟨[], eof⟩ : Source ε) = [] := rfl

@[simp] lemma bytes_mk_data (b : UInt8) (bs : List UInt8) (chunks : List (Chunk ε)) (eof : Bool) :
    bytes ⟨.data b bs :: chunks, eof⟩ = b :: bs ++ bytes ⟨chunks, eof⟩ := by
  simp [bytes, Chunk.bytes]

@[simp] lemma bytes_mk_fault (e : ε) (chunks : List (Chunk ε)) (eof : Bool) :
    bytes ⟨.fault e :: chunks, eof⟩ = bytes ⟨chunks, eof⟩ := by
  simp [bytes, Chunk.bytes]

@[simp] lemma bytes_unread (bs : List UInt8) (src : Source ε) :
    (unread bs src).bytes = bs ++ src.bytes := by
  cases bs with
  | nil => rfl
  | cons b bs => simp [unread, bytes, Chunk.bytes]

@[simp] lemma eof_unread (bs : List UInt8) (src : Source ε) : (unread bs src).eof = src.eof := by
  cases bs with
  | nil => rfl
  | cons b bs => rfl

/-- `read_exact` is a loop around `read`. -/
lemma readExact_succ (n : ℕ) (src : Source ε) :
    readExact retry unexpectedEof (n + 1) src.chunks src.eof =
      match src.read (n + 1) with
      | none                    => none
      | some (.error e, src')   =>
        if retry e then readExact retry unexpectedEof (n + 1) src'.chunks src'.eof
        else some (.error e, src')
      | some (.ok [], src')     => some (.error unexpectedEof, src')
      | some (.ok (b :: bs), src') =>
        match readExact retry unexpectedEof (n - bs.length) src'.chunks src'.eof with
        | some (.ok more, src'') => some (.ok (b :: bs ++ more), src'')
        | result                 => result := by
  obtain ⟨chunks, eof⟩ := src
  cases chunks with
  | nil => cases eof <;> rfl
  | cons c chunks =>
    cases c with
    | fault e => rfl
    | data b bs =>
      simp only [readExact, read, List.take_succ_cons, List.drop_succ_cons]
      split_ifs with hn
      · have hlen : n - (bs.take n).length = 0 := by simp [List.length_take]; omega
        simp only [hlen, readExact, List.append_nil]
      · have hn' : bs.length ≤ n := not_lt.mp hn
        rw [List.take_of_length_le hn', List.drop_of_length_le hn']
        rfl

/-- What was read is what the source held in front. -/
lemma readExact_ok {n : ℕ} {chunks : List (Chunk ε)} {eof : Bool} {bs : List UInt8}
    {src : Source ε} (h : readExact retry unexpectedEof n chunks eof = some (.ok bs, src)) :
    bytes ⟨chunks, eof⟩ = bs ++ src.bytes ∧ bs.length = n ∧ src.eof = eof := by
  induction chunks generalizing n bs src with
  | nil =>
    cases n with
    | zero =>
      simp only [readExact, Option.some.injEq, Prod.mk.injEq, Except.ok.injEq] at h
      obtain ⟨rfl, rfl⟩ := h
      simp
    | succ n => cases eof <;> simp [readExact] at h
  | cons c chunks ih =>
    cases n with
    | zero =>
      simp only [readExact, Option.some.injEq, Prod.mk.injEq, Except.ok.injEq] at h
      obtain ⟨rfl, rfl⟩ := h
      simp
    | succ n =>
      cases c with
      | fault e =>
        simp only [readExact] at h
        split_ifs at h
        · simpa using ih h
        · simp at h
      | data b bs' =>
        simp only [readExact] at h
        split_ifs at h with hn
        · simp only [Option.some.injEq, Prod.mk.injEq, Except.ok.injEq] at h
          obtain ⟨rfl, rfl⟩ := h
          refine ⟨by simp [← List.append_assoc], ?_, by simp⟩
          simp only [List.length_take, List.length_cons]
          omega
        · rcases hmore : readExact retry unexpectedEof (n - bs'.length) chunks eof with
            _ | ⟨r, src'⟩
          · simp [hmore] at h
          · cases r with
            | error e => simp [hmore] at h
            | ok more =>
              simp only [hmore, Option.some.injEq, Prod.mk.injEq, Except.ok.injEq] at h
              obtain ⟨rfl, rfl⟩ := h
              obtain ⟨hbytes, hlen, heof⟩ := ih hmore
              refine ⟨by simp [hbytes], ?_, heof⟩
              simp only [List.length_append, List.length_cons, hlen]
              omega

/-- The errors ahead are all ones that `read_exact` retries. -/
def Clean (retry : ε → Bool) (chunks : List (Chunk ε)) : Prop :=
  ∀ e, .fault e ∈ chunks → retry e = true

lemma Clean.tail {c : Chunk ε} {chunks : List (Chunk ε)} (h : Clean retry (c :: chunks)) :
    Clean retry chunks := fun e he => h e (List.mem_cons_of_mem _ he)

lemma Clean.unread {bs : List UInt8} {src : Source ε} (h : Clean retry src.chunks) :
    Clean retry (unread bs src).chunks := by
  cases bs with
  | nil => exact h
  | cons b bs =>
    intro e he
    rcases List.mem_cons.mp he with he | he
    · cases he
    · exact h e he

lemma readExact_clean {n : ℕ} {chunks : List (Chunk ε)} {eof : Bool}
    {result : Except ε (List UInt8)} {src : Source ε} (hclean : Clean retry chunks)
    (h : readExact retry unexpectedEof n chunks eof = some (result, src)) :
    Clean retry src.chunks := by
  induction chunks generalizing n result with
  | nil =>
    cases n with
    | zero =>
      cases h
      exact hclean
    | succ n =>
      cases eof with
      | false => cases h
      | true =>
        cases h
        exact hclean
  | cons c chunks ih =>
    cases n with
    | zero =>
      cases h
      exact hclean
    | succ n =>
      cases c with
      | fault e =>
        simp only [readExact] at h
        split_ifs at h
        · exact ih hclean.tail h
        · cases h
          exact hclean.tail
      | data b bs =>
        simp only [readExact] at h
        split_ifs at h
        · cases h
          exact hclean.tail.unread
        · rcases hmore : readExact retry unexpectedEof (n - bs.length) chunks eof with _ | ⟨r, src'⟩
          · simp [hmore] at h
          · cases r with
            | error e =>
              simp only [hmore] at h
              cases h
              exact ih hclean.tail hmore
            | ok more =>
              simp only [hmore] at h
              cases h
              exact ih hclean.tail hmore

/-- On a clean source, `read_exact` fails only where the file ends too early. -/
lemma readExact_error {n : ℕ} {chunks : List (Chunk ε)} {eof : Bool} {e : ε} {src : Source ε}
    (hclean : Clean retry chunks)
    (h : readExact retry unexpectedEof n chunks eof = some (.error e, src)) :
    e = unexpectedEof ∧ eof = true ∧ src = ⟨[], true⟩ ∧ (bytes ⟨chunks, eof⟩).length < n := by
  induction chunks generalizing n with
  | nil =>
    cases n with
    | zero => cases h
    | succ n =>
      cases eof with
      | false => cases h
      | true =>
        cases h
        simp
  | cons c chunks ih =>
    cases n with
    | zero => cases h
    | succ n =>
      cases c with
      | fault e' =>
        simp only [readExact, hclean e' List.mem_cons_self, if_true] at h
        simpa using ih hclean.tail h
      | data b bs =>
        simp only [readExact] at h
        split_ifs at h with hn
        · cases h
        · rcases hmore : readExact retry unexpectedEof (n - bs.length) chunks eof with _ | ⟨r, src'⟩
          · simp [hmore] at h
          · cases r with
            | ok more => simp [hmore] at h
            | error e' =>
              simp only [hmore] at h
              cases h
              obtain ⟨he, heof, hsrc, hlen⟩ := ih hclean.tail hmore
              refine ⟨he, heof, hsrc, ?_⟩
              simp only [bytes_mk_data, List.length_append, List.length_cons]
              omega

/-! ### Bytes that have arrived -/

/-- These bytes have arrived, in one run. -/
def arrived (bs : List UInt8) (eof : Bool) : Source ε := unread bs ⟨[], eof⟩

@[simp] lemma bytes_arrived (bs : List UInt8) (eof : Bool) :
    (arrived bs eof : Source ε).bytes = bs := by
  simp [arrived]

@[simp] lemma eof_arrived (bs : List UInt8) (eof : Bool) :
    (arrived bs eof : Source ε).eof = eof := by
  simp [arrived]

lemma noFault_arrived (bs : List UInt8) (eof : Bool) (e : ε) :
    .fault e ∉ (arrived bs eof).chunks := by
  cases bs <;> simp [arrived, unread]

lemma read_arrived (b : UInt8) (bs : List UInt8) (eof : Bool) :
    (arrived (b :: bs) eof : Source ε).read 1 = some (.ok [b], arrived bs eof) := rfl

/-- What has arrived is read without waiting. -/
lemma readExact_arrived {n : ℕ} {bs : List UInt8} (h : n ≤ bs.length) (eof : Bool) :
    readExact retry unexpectedEof n (arrived bs eof).chunks (arrived bs eof : Source ε).eof =
      some (.ok (bs.take n), arrived (bs.drop n) eof) := by
  cases n with
  | zero => cases bs <;> rfl
  | succ n =>
    cases bs with
    | nil => simp at h
    | cons b bs =>
      show readExact retry unexpectedEof (n + 1) [.data b bs] eof = _
      rw [readExact]
      split_ifs with hn
      · rfl
      · have hlen : bs.length = n := by
          rw [List.length_cons] at h
          omega
        rw [hlen, Nat.sub_self, readExact]
        simp [← hlen, arrived, unread]

/-! ### Without errors -/

/-- Runs of bytes, and then the end of the file. -/
structure Plain (src : Source ε) : Prop where
  eof : src.eof = true
  noFault : ∀ e, .fault e ∉ src.chunks

/-- The source that delivers these runs of bytes. -/
def ofRuns (runs : List (UInt8 × List UInt8)) : Source ε :=
  ⟨runs.map fun run => .data run.1 run.2, true⟩

lemma plain_ofRuns (runs : List (UInt8 × List UInt8)) : (ofRuns runs : Source ε).Plain where
  eof := rfl
  noFault := by simp [ofRuns]

lemma Plain.unread {src : Source ε} (h : src.Plain) (bs : List UInt8) : (unread bs src).Plain := by
  cases bs with
  | nil => exact h
  | cons b bs => exact ⟨h.eof, by simpa [Source.unread] using h.noFault⟩

lemma plain_nil : (⟨[], true⟩ : Source ε).Plain := ⟨rfl, by simp⟩

/-- A read into one byte finds the next byte, or the end of the file. -/
lemma Plain.read_one {src : Source ε} (h : src.Plain) :
    src.bytes = [] ∧ src.read 1 = some (.ok [], src) ∨
      ∃ b src', src.read 1 = some (.ok [b], src') ∧ src'.Plain ∧ src.bytes = b :: src'.bytes := by
  obtain ⟨chunks, eof⟩ := src
  obtain ⟨rfl, hfault⟩ := h
  cases chunks with
  | nil => exact .inl ⟨rfl, rfl⟩
  | cons c chunks =>
    cases c with
    | fault e => exact absurd List.mem_cons_self (hfault e)
    | data b bs =>
      have hrest : (⟨chunks, true⟩ : Source ε).Plain :=
        ⟨rfl, fun e he => hfault e (List.mem_cons_of_mem _ he)⟩
      refine .inr ⟨b, _, rfl, hrest.unread _, ?_⟩
      simp

/-- `read_exact` succeeds where enough bytes are left, and fails at the end of the file
elsewhere. -/
lemma Plain.readExact {src : Source ε} (h : src.Plain) (retry : ε → Bool) (unexpectedEof : ε)
    (n : ℕ) :
    (n ≤ src.bytes.length ∧ ∃ src', readExact retry unexpectedEof n src.chunks src.eof =
        some (.ok (src.bytes.take n), src') ∧ src'.Plain ∧ src'.bytes = src.bytes.drop n) ∨
      (src.bytes.length < n ∧ readExact retry unexpectedEof n src.chunks src.eof =
        some (.error unexpectedEof, ⟨[], true⟩)) := by
  obtain ⟨chunks, eof⟩ := src
  obtain ⟨rfl, hfault⟩ := h
  induction chunks generalizing n with
  | nil =>
    cases n with
    | zero => exact .inl ⟨le_rfl, _, rfl, plain_nil, rfl⟩
    | succ n => exact .inr ⟨by simp, rfl⟩
  | cons c chunks ih =>
    have hrest : ∀ e, .fault e ∉ chunks := fun e he => hfault e (List.mem_cons_of_mem _ he)
    cases n with
    | zero => exact .inl ⟨Nat.zero_le _, _, rfl, ⟨rfl, hfault⟩, rfl⟩
    | succ n =>
      cases c with
      | fault e => exact absurd List.mem_cons_self (hfault e)
      | data b bs =>
        rw [Source.readExact, bytes_mk_data, List.length_append, List.length_cons]
        by_cases hn : n < bs.length
        · left
          have hle : n + 1 ≤ (b :: bs).length := Nat.succ_le_succ hn.le
          rw [if_pos hn, List.take_append_of_le_length hle]
          have hplain : (⟨chunks, true⟩ : Source ε).Plain := ⟨rfl, hrest⟩
          refine ⟨by omega, _, rfl, hplain.unread _, ?_⟩
          rw [bytes_unread, List.drop_append_of_le_length hle]
        · rw [if_neg hn]
          have hsplit : n + 1 = (b :: bs).length + (n - bs.length) := by
            rw [List.length_cons]
            omega
          rcases ih (n - bs.length) hrest with ⟨hle, src', heq, hplain, hdrop⟩ | ⟨hlt, heq⟩
          · left
            refine ⟨by omega, src', ?_, hplain, ?_⟩
            · simp only at heq
              simp only [heq]
              rw [hsplit, List.take_length_add_append]
            · rw [hdrop, hsplit, List.drop_length_add_append]
          · right
            refine ⟨by omega, ?_⟩
            simp only at heq
            simp only [heq]

end Source

end ModelApi.Lib
