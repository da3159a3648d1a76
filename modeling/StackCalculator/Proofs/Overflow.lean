import StackCalculator.Proofs.Terminators

/-!
# Outputs that overflow

An output with room for `k` bytes takes the first `k` bytes of what is written to it, and the write
that asks for more fails. A session with such an output is, up to that write, the session that has
no limit: the two hold the same line, the same input and the same values, and the one output is the
other cut behind `k` bytes. Nothing that a session does depends on its output but the results of its
writes, so the cut run and the whole run part at the write that does not fit, and there the cut run
ends.

A step writes twice, its prompt before the line and its answer behind it. So the values that a run
leaves where it is cut are those before a line or behind it, and never those in the middle of one.

## Main definitions

* `Output.upTo k`, `Session.upTo k`: what a limit of `k` bytes leaves of an output, and of a session
* `Session.WritesIn k n`: the step in which the byte behind the first `k` is written

## Main results

* `Output.write_upTo_of_le`, `Output.write_upTo_of_lt`: a write that fits, and one that does not
* `Session.step_upTo_of_le`, `Session.step_upTo_of_lt`: a step whose writes fit, and one that is cut
  off
* `Session.run_of_limit`: a full output cuts a run off, and changes nothing before
-/

namespace StackCalculator

namespace Output

/-! ## Outputs cut behind some bytes -/

/-- The number of bytes written. -/
def size (o : Output) : Nat :=
  o.written.size

/-- **What a limit leaves of an output**: the first `k` of the bytes written, and the room behind
them. -/
def upTo (k : Nat) (o : Output) : Output :=
  ⟨o.written.extract 0 k, some (k - o.size)⟩

variable {k : Nat} {o : Output} {text : String}

@[simp]
theorem size_extend (text : String) (o : Output) :
    (o.extend text).size = o.size + text.utf8ByteSize := by
  rw [size, extend, ByteArray.size_append]
  rfl

/-- An output that is not longer than the limit is not cut. -/
theorem extract_of_size_le {bytes : ByteArray} (h : bytes.size ≤ k) :
    bytes.extract 0 k = bytes := by
  rw [← Nat.max_eq_left h, ByteArray.extract_zero_max_size]

theorem extract_eq_extract_min (bytes : ByteArray) (k : Nat) :
    bytes.extract 0 k = bytes.extract 0 (min k bytes.size) := by
  rcases Nat.le_total k bytes.size with h | h
  · rw [Nat.min_eq_left h]
  · rw [Nat.min_eq_right h, extract_of_size_le h, extract_of_size_le (Nat.le_refl _)]

theorem upTo_empty (k : Nat) : (empty none).upTo k = empty (some k) := by
  have hwritten : ByteArray.empty.extract 0 k = ByteArray.empty :=
    extract_of_size_le (Nat.zero_le k)
  exact congrArg (Output.mk · (some k)) hwritten

/-- The bytes that a limit leaves of two outputs put together. -/
theorem written_upTo_extend (k : Nat) (text : String) (o : Output) :
    ((o.extend text).upTo k).written =
      (o.upTo k).written ++ text.toUTF8.extract 0 (k - o.size) := by
  rw [upTo, extend, ByteArray.extract_append, Nat.zero_sub]
  rfl

/-- What is written behind the limit leaves no trace. -/
theorem upTo_extend_of_le (h : k ≤ o.size) : (o.extend text).upTo k = o.upTo k := by
  have hwritten : ((o.extend text).upTo k).written = (o.upTo k).written := by
    rw [written_upTo_extend, Nat.sub_eq_zero_of_le h, ByteArray.extract_same,
      ByteArray.append_empty]
  have hroom : ((o.extend text).upTo k).room? = (o.upTo k).room? := by
    rw [upTo, upTo, size_extend, Nat.sub_eq_zero_of_le h, Nat.sub_eq_zero_of_le (by omega)]
  exact congrArg₂ Output.mk hwritten hroom

/-- **A write that fits** is what it is without a limit. -/
theorem write_upTo_of_le (h : (o.extend text).size ≤ k) :
    (o.upTo k).write text = (.ok (), (o.extend text).upTo k) := by
  have hsize : text.toUTF8.size ≤ k - o.size := by
    rw [size_extend] at h
    change text.utf8ByteSize ≤ k - o.size
    omega
  have hwritten := written_upTo_extend k text o
  rw [extract_of_size_le hsize] at hwritten
  have hroom : k - (o.extend text).size = k - o.size - text.toUTF8.size := by
    rw [size_extend, Nat.sub_add_eq]
    rfl
  simp only [write, upTo, if_pos hsize] at hwritten ⊢
  rw [hwritten, hroom]

/-- **A write that does not fit** fails, and writes what there is room for. -/
theorem write_upTo_of_lt (ho : o.size ≤ k) (h : k < (o.extend text).size) :
    (o.upTo k).write text = (.error overflowReason, (o.extend text).upTo k) := by
  have hsize : ¬ text.toUTF8.size ≤ k - o.size := by
    rw [size_extend] at h
    change ¬ text.utf8ByteSize ≤ k - o.size
    omega
  have hwritten := written_upTo_extend k text o
  simp only [write, upTo, if_neg hsize] at hwritten ⊢
  rw [hwritten, Nat.sub_eq_zero_of_le (Nat.le_of_lt h)]

end Output

namespace TokenReader

/-! ## Readers and sessions with a limit -/

variable {k : Nat} {r : TokenReader}

/-- **What a limit leaves of a reader.** -/
def upTo (k : Nat) (r : TokenReader) : TokenReader :=
  r.on r.input (r.output.upTo k)

/-- Reading a line has nothing to do with the output. -/
theorem receive_upTo (k : Nat) (r : TokenReader) :
    (r.upTo k).receive = (r.receive.1, r.receive.2.upTo k) := by
  simp only [receive, upTo, on]
  split <;> rfl

theorem write_upTo_of_le {text : String} (h : (r.output.extend text).size ≤ k) :
    (r.upTo k).write text = (.ok (), upTo k { r with output := r.output.extend text }) := by
  rw [write_eq]
  simp only [upTo, on, Output.write_upTo_of_le h]
  rfl

theorem write_upTo_of_lt {text : String} (hr : r.output.size ≤ k)
    (h : k < (r.output.extend text).size) : (r.upTo k).write text =
      (.error (.stream Output.overflowReason),
        upTo k { r with output := r.output.extend text }) := by
  rw [write_eq]
  simp only [upTo, on, Output.write_upTo_of_lt hr h]
  rfl

/-- Being ready for a line, if the prompt fits. -/
theorem ready_upTo_of_le (hneeds : r.line.phase.isFinished = true) (hroom : r.output.room? = none)
    (h : (r.output.extend r.prompt).size ≤ k) :
    (r.upTo k).ready = (r.ready.1, r.ready.2.upTo k) := by
  have hneeds' : (r.upTo k).line.phase.isFinished = true := hneeds
  have hwrite : (r.upTo k).write (r.upTo k).prompt = _ := write_upTo_of_le h
  rw [ready, ready, if_pos hneeds, if_pos hneeds', fetch, fetch, hwrite, write_of_unlimited hroom]
  exact receive_upTo k _

/-- Being ready for a line, if the prompt does not fit. -/
theorem ready_upTo_of_lt (hneeds : r.line.phase.isFinished = true) (hr : r.output.size ≤ k)
    (h : k < (r.output.extend r.prompt).size) :
    (r.upTo k).ready = (.error (.fatal (.stream Output.overflowReason)),
      upTo k { r with output := r.output.extend r.prompt }) := by
  have hneeds' : (r.upTo k).line.phase.isFinished = true := hneeds
  have hwrite : (r.upTo k).write (r.upTo k).prompt = _ := write_upTo_of_lt hr h
  rw [ready, if_pos hneeds', fetch, hwrite]
  rfl

end TokenReader

namespace Session

open Evaluation

variable {k : Nat} {s : Session} {text : String}

/-- **What a limit leaves of a session.** -/
def upTo (k : Nat) (s : Session) : Session :=
  { s with reader := s.reader.upTo k }

/-- The number of bytes that a session has written. -/
def size (s : Session) : Nat :=
  s.reader.output.size

theorem write_upTo_of_le (h : (s.reader.output.extend text).size ≤ k) : (s.upTo k).write text =
    (.ok (), upTo k { s with
      reader := { s.reader with output := s.reader.output.extend text } }) := by
  have hwrite := TokenReader.write_upTo_of_le (r := s.reader) h
  simp only [write, upTo, hwrite]

theorem write_upTo_of_lt (hs : s.size ≤ k) (h : k < (s.reader.output.extend text).size) :
    (s.upTo k).write text = (.error (.stream Output.overflowReason),
      upTo k { s with reader := { s.reader with output := s.reader.output.extend text } }) := by
  have hwrite := TokenReader.write_upTo_of_lt (r := s.reader) hs h
  simp only [write, upTo, hwrite]

/-- The evaluation of a line has nothing to do with the output. -/
theorem restValue_upTo (e : Evaluation) (r : TokenReader) (k : Nat) :
    restValue e (r.upTo k) = ((restValue e r).1, (restValue e r).2.upTo k) := by
  obtain ⟨-, houtput, -⟩ := restValue_frame e r
  rw [TokenReader.upTo, restValue_on, upTo, TokenReader.upTo, houtput, restValue_input]
  rfl

/-- **A line is the same behind a prompt that fits.** -/
theorem lineValue_upTo_of_le (hneeds : s.reader.line.phase.isFinished = true)
    (hroom : s.reader.output.room? = none) (h : (s.reader.output.extend s.reader.prompt).size ≤ k) :
    (s.upTo k).lineValue = (s.lineValue.1, s.lineValue.2.upTo k) := by
  have hready : (s.upTo k).reader.ready = _ := TokenReader.ready_upTo_of_le hneeds hroom h
  rw [lineValue, lineValue, hready]
  rcases s.reader.ready with ⟨i | u, r⟩
  · rfl
  · exact restValue_upTo _ r k

/-- The answer to a line that failed, if it fits. -/
theorem answerFailure_upTo_of_le (hroom : s.reader.output.room? = none) (d : Diagnostic)
    (h : (s.answerFailure d).2.size ≤ k) :
    (s.upTo k).answerFailure d = ((s.answerFailure d).1, (s.answerFailure d).2.upTo k) := by
  rw [answerFailure_of_unlimited hroom, ← Output.extend_extend] at h ⊢
  have hfirst : (s.reader.output.extend (diagnosticText d s.reader.line.text)).size ≤ k := by
    rw [size, Output.size_extend] at h
    omega
  have hwrite : (s.upTo k).reader.output.write
      (diagnosticText d (s.upTo k).reader.line.text) = _ := Output.write_upTo_of_le hfirst
  rw [answerFailure_eq, hwrite]
  exact write_upTo_of_le (s := { s with reader := { s.reader.note (.lineFailed d) with
    output := s.reader.output.extend (diagnosticText d s.reader.line.text)
    line := s.reader.line.dropRest } }) h

/-- **An answer that fits** is what it is without a limit. -/
theorem answer_upTo_of_le (hroom : s.reader.output.room? = none) (value : Except Interrupt Float)
    (h : (answer value s).2.size ≤ k) :
    answer value (s.upTo k) = ((answer value s).1, (answer value s).2.upTo k) := by
  match value with
  | .ok x =>
    simp only [answer, write_of_unlimited hroom] at h ⊢
    rw [write_upTo_of_le h]
  | .error (.failed d) =>
    simp only [answer] at h ⊢
    rw [answerFailure_upTo_of_le hroom d h]
  | .error (.ended ending) =>
    simp only [answer, write_of_unlimited hroom] at h ⊢
    rw [write_upTo_of_le h]
  | .error (.fatal err) => rfl

/-- **A call that is cut off**, which leaves what a limit leaves of the output of `s`, and the
values of `s`. -/
structure CutOff {α : Type} (k : Nat) (s : Session) (p : Except FatalError α × Session) : Prop where
  result : p.1 = .error (.stream Output.overflowReason)
  output : p.2.reader.output = s.reader.output.upTo k
  symbols : p.2.symbols = s.symbols

theorem cutOff_write (hs : s.size ≤ k) (h : k < (s.reader.output.extend text).size) :
    CutOff k { s with reader := { s.reader with output := s.reader.output.extend text } }
      ((s.upTo k).write text) := by
  rw [write_upTo_of_lt hs h]
  exact ⟨rfl, rfl, rfl⟩

/-- The answer to a line that failed, if it does not fit. -/
theorem cutOff_answerFailure (hroom : s.reader.output.room? = none) (hs : s.size ≤ k)
    (d : Diagnostic) (h : k < (s.answerFailure d).2.size) :
    CutOff k (s.answerFailure d).2 ((s.upTo k).answerFailure d) := by
  rw [answerFailure_of_unlimited hroom, ← Output.extend_extend] at h ⊢
  rw [answerFailure_eq]
  by_cases hfirst : (s.reader.output.extend (diagnosticText d s.reader.line.text)).size ≤ k
  · -- the diagnostic fits, and what follows it does not
    have hwrite : (s.upTo k).reader.output.write
        (diagnosticText d (s.upTo k).reader.line.text) = _ := Output.write_upTo_of_le hfirst
    rw [hwrite]
    exact cutOff_write (s := { s with reader := { s.reader.note (.lineFailed d) with
      output := s.reader.output.extend (diagnosticText d s.reader.line.text)
      line := s.reader.line.dropRest } }) hfirst h
  · -- the diagnostic does not fit, and what follows it is not written at all
    have hwrite : (s.upTo k).reader.output.write
        (diagnosticText d (s.upTo k).reader.line.text) = _ :=
      Output.write_upTo_of_lt hs (Nat.lt_of_not_le hfirst)
    rw [hwrite]
    exact ⟨rfl, (Output.upTo_extend_of_le (Nat.le_of_not_le hfirst)).symm, rfl⟩

/-- **An answer that does not fit** is cut off. -/
theorem cutOff_answer (hroom : s.reader.output.room? = none) (hs : s.size ≤ k)
    (value : Except Interrupt Float) (h : k < (answer value s).2.size) :
    CutOff k (answer value s).2 (answer value (s.upTo k)) := by
  match value with
  | .ok x =>
    simp only [answer, write_of_unlimited hroom] at h ⊢
    rw [write_upTo_of_lt hs h]
    exact ⟨rfl, rfl, rfl⟩
  | .error (.failed d) =>
    obtain ⟨hresult, houtput, hsymbols⟩ := cutOff_answerFailure hroom hs d h
    exact ⟨congrArg (Except.map fun _ => none) hresult, houtput, hsymbols⟩
  | .error (.ended ending) =>
    simp only [answer, write_of_unlimited hroom] at h ⊢
    rw [write_upTo_of_lt hs h]
    exact ⟨rfl, rfl, rfl⟩
  | .error (.fatal err) => exact absurd h (Nat.not_lt_of_le hs)

/-! ## Steps with a limit -/

section Step

variable (hneeds : s.reader.line.phase.isFinished = true) (hroom : s.reader.output.room? = none)

include hneeds hroom

/-- Behind its line, a session has written its prompt. -/
theorem output_lineValue :
    s.lineValue.2.reader.output = s.reader.output.extend s.reader.prompt := by
  obtain ⟨houtput, -⟩ := lineValue_of_unlimited hroom
  rwa [promptText, if_pos hneeds] at houtput

/-- A step writes no less than its prompt. -/
theorem size_prompt_le : (s.reader.output.extend s.reader.prompt).size ≤ s.step.2.size := by
  obtain ⟨-, houtput, -⟩ := step_of_unlimited hroom
  rw [promptText, if_pos hneeds, ← Output.extend_extend] at houtput
  rw [size, houtput, Output.size_extend _ (s.reader.output.extend s.reader.prompt)]
  exact Nat.le_add_right _ _

/-- **A step whose writes fit** is what it is without a limit. -/
theorem step_upTo_of_le (h : s.step.2.size ≤ k) :
    (s.upTo k).step = (s.step.1, s.step.2.upTo k) := by
  have hprompt := Nat.le_trans (size_prompt_le hneeds hroom) h
  have houtput := output_lineValue hneeds hroom
  rw [step_eq_answer] at h ⊢
  rw [step_eq_answer s, lineValue_upTo_of_le hneeds hroom hprompt]
  exact answer_upTo_of_le (by rw [houtput]; exact hroom) _ h

/-- **A step that is cut off** leaves the values before its line if its prompt does not fit, and
those behind it if its prompt fits and its answer does not. -/
theorem step_upTo_of_lt (hs : s.size ≤ k) (h : k < s.step.2.size) :
    (s.upTo k).step.1 = .error (.stream Output.overflowReason) ∧
      (s.upTo k).step.2.reader.output = s.step.2.reader.output.upTo k ∧
      (s.upTo k).step.2.symbols =
        if k < s.size + s.reader.prompt.utf8ByteSize then s.symbols else s.step.2.symbols := by
  have hsize : (s.reader.output.extend s.reader.prompt).size =
      s.size + s.reader.prompt.utf8ByteSize := Output.size_extend _ _
  by_cases hprompt : k < s.size + s.reader.prompt.utf8ByteSize
  · -- the prompt does not fit, and no line is read
    have hready : (s.upTo k).reader.ready = _ :=
      TokenReader.ready_upTo_of_lt hneeds hs (hsize ▸ hprompt)
    have hstep : (s.upTo k).step = (.error (.stream Output.overflowReason),
        upTo k { s with
          reader := { s.reader with output := s.reader.output.extend s.reader.prompt } }) := by
      rw [step_eq_answer, lineValue, hready]
      rfl
    obtain ⟨-, houtput, -⟩ := step_of_unlimited hroom
    rw [promptText, if_pos hneeds, ← Output.extend_extend] at houtput
    rw [hstep, houtput, if_pos hprompt, Output.upTo_extend_of_le (hsize ▸ Nat.le_of_lt hprompt)]
    exact ⟨rfl, rfl, rfl⟩
  · -- the line is read, and its answer does not fit
    have houtput := output_lineValue hneeds hroom
    have hline : s.lineValue.2.size ≤ k := by
      rw [size, houtput, hsize]
      exact Nat.le_of_not_lt hprompt
    rw [if_neg hprompt, step_eq_answer, step_eq_answer s,
      lineValue_upTo_of_le hneeds hroom (hsize ▸ Nat.le_of_not_lt hprompt)]
    rw [step_eq_answer] at h
    obtain ⟨hresult, hwritten, hsymbols⟩ := cutOff_answer (by rw [houtput]; exact hroom) hline _ h
    exact ⟨hresult, hwritten, hsymbols⟩

end Step

/-! ## Runs with a limit -/

/-- **The step in which the byte behind the first `k` is written**: the one behind the first `n`. -/
structure WritesIn (s : Session) (k n : Nat) : Prop where
  /-- The session gets there. -/
  lasts : s.Lasts n
  /-- It has written the first `k` bytes at most. -/
  before : (s.after n).size ≤ k
  /-- Behind the step, it has written more. -/
  behind : k < (s.after (n + 1)).size

/-- A step later is a step earlier for the session behind the first step. -/
theorem WritesIn.of_step {n : Nat} (hgoes : s.step.1 = .ok none) (h : s.step.2.WritesIn k n) :
    s.WritesIn k (n + 1) := by
  obtain ⟨hlasts, hbefore, hbehind⟩ := h
  refine ⟨fun m hm => ?_, by rwa [after_step], by rwa [after_step]⟩
  cases m with
  | zero => exact hgoes
  | succ m =>
    rw [after_step]
    exact hlasts m (Nat.lt_of_succ_lt_succ hm)

/-- A session writes more and more. -/
theorem size_after_le (hroom : s.reader.output.room? = none) {m n : Nat} (h : m ≤ n) :
    (s.after m).size ≤ (s.after n).size := by
  induction h with
  | refl => exact Nat.le_refl _
  | step _ ih =>
    obtain ⟨-, houtput, -⟩ := step_of_unlimited (room?_after hroom _)
    refine Nat.le_trans ih ?_
    rw [after, size, size, houtput, Output.size_extend]
    exact Nat.le_add_right _ _

/-- There is one step at most in which a byte is written. -/
theorem WritesIn.unique (hroom : s.reader.output.room? = none) {m n : Nat} (hm : s.WritesIn k m)
    (hn : s.WritesIn k n) : m = n := by
  -- behind the earlier of two steps, there would be too many bytes before the later one
  have hle : ∀ {m n}, s.WritesIn k m → s.WritesIn k n → n ≤ m := fun {m n} hm hn =>
    Nat.le_of_not_lt fun hlt => Nat.not_lt_of_le hn.before
      (Nat.lt_of_lt_of_le hm.behind (size_after_le hroom hlt))
  exact Nat.le_antisymm (hle hn hm) (hle hm hn)

/-- A run writes what its first step does, and possibly more. -/
theorem exists_output_run (hroom : s.reader.output.room? = none) :
    ∃ text, s.run.2.reader.output = s.step.2.reader.output.extend text := by
  cases hs : outcome? s.step.1 with
  | some o =>
    refine ⟨"", ?_⟩
    rw [(run_of_some hs).2.2]
    simp [Output.extend]
  | none =>
    have hgoes := outcome?_eq_none_iff.mp hs
    obtain ⟨-, -, houtput⟩ := run_of_unlimited (isFinished_of_step hgoes) (room?_after hroom 1) rfl
    exact ⟨_, by rw [run_of_none hs, houtput]⟩

/-- **What a limit makes of a run**: nothing, if everything fits, and else a run that is cut off in
the middle of a step. -/
structure Truncates (k : Nat) (s : Session) : Prop where
  output : (s.upTo k).run.2.reader.output = s.run.2.reader.output.upTo k
  fits : s.run.2.size ≤ k → (s.upTo k).run.1 = s.run.1 ∧ (s.upTo k).run.2.symbols = s.run.2.symbols
  overflows : k < s.run.2.size → (s.upTo k).run.1 = .error (.stream Output.overflowReason) ∧
    ∃ n, s.WritesIn k n ∧ (s.upTo k).run.2.symbols =
      if k < (s.after n).size + s.reader.prompt.utf8ByteSize then (s.after n).symbols
      else (s.after (n + 1)).symbols

/-- A run whose first step is cut off. -/
theorem truncates_of_lt (hneeds : s.reader.line.phase.isFinished = true)
    (hroom : s.reader.output.room? = none) (hs : s.size ≤ k) (h : k < s.step.2.size) :
    s.Truncates k := by
  obtain ⟨hresult, houtput, hsymbols⟩ := step_upTo_of_lt hneeds hroom hs h
  rcases hstep : (s.upTo k).step with ⟨result, s'⟩
  rw [hstep] at hresult houtput hsymbols
  obtain rfl : result = .error (.stream Output.overflowReason) := hresult
  obtain ⟨text, hrun⟩ := exists_output_run hroom
  have hcut := run_of_error hstep
  refine ⟨?_, fun hfits => ?_, fun _ => ?_⟩
  · rw [hcut, houtput, hrun, Output.upTo_extend_of_le (Nat.le_of_lt h)]
  · rw [size, hrun, Output.size_extend] at hfits
    exact absurd h (Nat.not_lt_of_le (Nat.le_trans (Nat.le_add_right _ _) hfits))
  · rw [hcut]
    exact ⟨rfl, 0, ⟨fun m hm => absurd hm (Nat.not_lt_zero m), hs, h⟩, hsymbols⟩

/-- A run whose first step is its last, and fits. -/
theorem truncates_of_last {o : Except FatalError Ending}
    (hneeds : s.reader.line.phase.isFinished = true) (hroom : s.reader.output.room? = none)
    (hlast : outcome? s.step.1 = some o) (h : s.step.2.size ≤ k) : s.Truncates k := by
  have hcut := step_upTo_of_le hneeds hroom h
  obtain ⟨hresult, hsymbols, houtput⟩ := run_of_some hlast
  obtain ⟨hresult', hsymbols', houtput'⟩ := run_of_some (s := s.upTo k) (by rw [hcut]; exact hlast)
  refine ⟨?_, fun _ => ⟨?_, ?_⟩, fun hover => ?_⟩
  · rw [houtput', houtput, hcut]
    rfl
  · rw [hresult', hresult]
  · rw [hsymbols', hsymbols, hcut]
    rfl
  · rw [size, houtput] at hover
    exact absurd hover (Nat.not_lt_of_le h)

/-- **A limit cuts a run off, and changes nothing before.** -/
theorem truncates (hneeds : s.reader.line.phase.isFinished = true)
    (hroom : s.reader.output.room? = none) (hs : s.size ≤ k) : s.Truncates k := by
  fun_induction Session.run s with
  | case1 s s' hstep ih =>
    by_cases hfits : s.step.2.size ≤ k
    · have hgoes : s.step.1 = .ok none := by rw [hstep]
      have hcut := step_upTo_of_le hneeds hroom hfits
      rw [hstep] at hfits hcut
      have hrun : s.run = s'.run := by
        rw [run_of_none (outcome?_eq_none_iff.mpr hgoes), hstep]
      have hrun' : (s.upTo k).run = (s'.upTo k).run := by
        rw [run_of_none (by rw [hcut]; rfl), hcut]
      obtain ⟨-, -, -, hprompt⟩ := step_of_unlimited hroom
      have hneeds' := isFinished_of_step hgoes
      have hroom' := room?_after hroom 1
      rw [after, after, hstep] at hroom'
      rw [hstep] at hneeds' hprompt
      obtain ⟨houtput, hwhole, hover⟩ := ih hneeds' hroom' hfits
      refine ⟨by rw [hrun, hrun', houtput], by rwa [hrun, hrun'], fun h => ?_⟩
      rw [hrun] at h
      obtain ⟨hresult, n, hwrites, hsymbols⟩ := hover h
      have hbehind : ∀ m, s.after (m + 1) = s'.after m := fun m => by rw [after_step, hstep]
      rw [hrun']
      refine ⟨hresult, n + 1, .of_step hgoes (by rwa [hstep]), ?_⟩
      rwa [hbehind, hbehind, ← hprompt]
    · exact truncates_of_lt hneeds hroom hs (Nat.lt_of_not_le hfits)
  | case2 s ending s' hstep =>
    by_cases hfits : s.step.2.size ≤ k
    · exact truncates_of_last hneeds hroom (o := .ok ending) (by rw [hstep]; rfl) hfits
    · exact truncates_of_lt hneeds hroom hs (Nat.lt_of_not_le hfits)
  | case3 s err s' hstep =>
    by_cases hfits : s.step.2.size ≤ k
    · exact truncates_of_last hneeds hroom (o := .error err) (by rw [hstep]; rfl) hfits
    · exact truncates_of_lt hneeds hroom hs (Nat.lt_of_not_le hfits)

/-- **A full output truncates a run, and never alters it.** Beside a run without a limit, one with
room for `k` bytes writes the first `k` bytes of what that one writes. If these are all, it ends
with the same result and the same values. Else it breaks down over the write that does not fit, in
the step in which the other one writes the byte behind the first `k`, and with the values that the
other one has then: those before the line if that byte belongs to its prompt, and those behind the
line if it comes after the prompt. -/
theorem run_of_limit (prompt : String) (input : Input) (symbols : SymbolTable) (k : Nat) :
    let s := fresh prompt input symbols
    let limited : Except FatalError Ending × Session :=
      run ⟨TokenReader.new prompt input (Output.empty (some k)), symbols⟩
    let written := s.run.2.reader.output.written
    limited.2.reader.output.written = written.extract 0 (min k written.size) ∧
      (written.size ≤ k → limited.1 = s.run.1 ∧ limited.2.symbols = s.run.2.symbols) ∧
      (k < written.size → limited.1 = .error (.stream Output.overflowReason) ∧
        (∃ n, s.WritesIn k n) ∧ ∀ n, s.WritesIn k n → limited.2.symbols =
          if k < (s.after n).size + prompt.utf8ByteSize then (s.after n).symbols
          else (s.after (n + 1)).symbols) := by
  intro s limited written
  have hlimited : limited = (s.upTo k).run := by
    have hempty : s.upTo k = ⟨TokenReader.new prompt input ((Output.empty none).upTo k), symbols⟩ :=
      rfl
    rw [hempty, Output.upTo_empty]
  obtain ⟨houtput, hfits, hover⟩ := truncates (s := s) (k := k) rfl rfl (Nat.zero_le k)
  rw [← hlimited] at houtput hfits hover
  refine ⟨?_, hfits, fun h => ?_⟩
  · calc limited.2.reader.output.written
        = written.extract 0 k := by rw [houtput]; rfl
      _ = written.extract 0 (min k written.size) := Output.extract_eq_extract_min _ _
  · obtain ⟨hresult, n, hwrites, hsymbols⟩ := hover h
    refine ⟨hresult, ⟨n, hwrites⟩, fun m hm => ?_⟩
    rw [hm.unique rfl hwrites]
    exact hsymbols

end Session

end StackCalculator
