import StackCalculator.Proofs.History
import StackCalculator.Proofs.Lines

/-!
# Answers

The evaluation of a line depends on nothing but the line and the values of the names, and leaves the
input and the output alone. What a step results in is up to the line, unless something cannot be
read or written. An output without a limit takes everything that is written to it, so that a step
writes its prompt, if it needs a line, and its answer behind it.

## Main definitions

* `Session.promptText`: what a session writes before it reads a line, if it needs one
* `Session.answer`: a line is answered
* `Session.answerText`, `Session.answerResult`: the answer to a line, and whether the session ends
  with it

## Main results

* `Session.restValue_congr`, `Session.restValue_on`: a line is evaluated alike by all readers that
  hold it, whatever their streams are
* `Session.step_result`: what a step results in
* `Session.step_of_unlimited`: what a step does if its output has no limit
-/

namespace StackCalculator

/-! ## Writing -/

/-- **An output with a text behind what was written before.** -/
def Output.extend (text : String) (o : Output) : Output :=
  { o with written := o.written ++ text.toUTF8 }

theorem Output.extend_extend (text text' : String) (o : Output) :
    (o.extend text).extend text' = o.extend (text ++ text') := by
  simp only [extend, String.toUTF8_eq_toByteArray, String.toByteArray_append,
    ByteArray.append_assoc]

namespace TokenReader

/-- What a reader writes goes to its output. -/
theorem write_eq (text : String) (r : TokenReader) :
    r.write text = ((r.output.write text).1.mapError .stream,
      { r with output := (r.output.write text).2 }) := by
  rw [write]
  split <;> next h => rw [h]; rfl

theorem write_of_unlimited {r : TokenReader} (h : r.output.room? = none) (text : String) :
    r.write text = (.ok (), { r with output := r.output.extend text }) := by
  rw [write_eq, Output.write_of_unlimited h]
  rfl

/-- **The reader on other streams.** -/
def on (input : Input) (output : Output) (r : TokenReader) : TokenReader :=
  { r with input, output }

theorem noteAny_on (remark? : Option Remark) (r : TokenReader) (input : Input) (output : Output) :
    (r.on input output).noteAny remark? = (r.noteAny remark?).on input output := by
  cases remark? <;> rfl

end TokenReader

namespace Session

open Evaluation

/-- **The session on other streams.** -/
def on (input : Input) (output : Output) (s : Session) : Session :=
  { s with reader := s.reader.on input output }

/-- What a session writes goes to its output. -/
theorem write_eq (text : String) (s : Session) :
    s.write text = ((s.reader.output.write text).1.mapError .stream,
      { s with reader := { s.reader with output := (s.reader.output.write text).2 } }) := by
  simp only [write, TokenReader.write_eq]

theorem write_of_unlimited {s : Session} (h : s.reader.output.room? = none) (text : String) :
    s.write text =
      (.ok (), { s with reader := { s.reader with output := s.reader.output.extend text } }) := by
  rw [write_eq, Output.write_of_unlimited h]
  rfl

/-! ## What the evaluation of a line depends on -/

section RestValue

variable {e e' : Evaluation} {r : TokenReader}

theorem restValue_of_next {remark? : Option Remark}
    (h : e.feed r.take.1 r.take.2.line.column = .next e' remark?) :
    restValue e r = restValue e' (r.take.2.noteAny remark?) :=
  (Reaches.step h (.refl _ _)).restValue_eq

/-- The token that gives a line its value ends its evaluation. -/
theorem restValue_of_done {x : Float} {symbols : SymbolTable} {remark : Remark}
    (h : e.feed r.take.1 r.take.2.line.column = .done x symbols remark) :
    restValue e r = (.ok x, ⟨r.take.2.note remark, symbols⟩) := by
  rw [restValue]
  split
  · next heq => rw [h] at heq; cases heq
  · next heq =>
    rw [h] at heq
    cases heq
    rfl
  · next heq => rw [h] at heq; cases heq

/-- The evaluation of a line leaves the prompt, the output and the text of the line alone. -/
theorem restValue_frame (e : Evaluation) (r : TokenReader) :
    (restValue e r).2.reader.prompt = r.prompt ∧ (restValue e r).2.reader.output = r.output ∧
      (restValue e r).2.reader.line.text = r.line.text := by
  fun_induction restValue e r with
  | case1 e r r' e' remark? h ih => cases remark? <;> exact ih
  | case2 => exact ⟨rfl, rfl, rfl⟩
  | case3 => exact ⟨rfl, rfl, rfl⟩

/-- **A line is evaluated alike by all readers that hold it.** -/
theorem restValue_congr (e : Evaluation) (r : TokenReader) : ∀ r' : TokenReader, r.line = r'.line →
    (restValue e r).1 = (restValue e r').1 ∧
      (restValue e r).2.symbols = (restValue e r').2.symbols ∧
      (restValue e r).2.reader.line = (restValue e r').2.reader.line := by
  have hfeed : ∀ e : Evaluation, ∀ r r' : TokenReader, r.line = r'.line →
      e.feed r'.take.1 r'.take.2.line.column = e.feed r.take.1 r.take.2.line.column :=
    fun e _ _ h => congrArg (fun l : LineCursor => e.feed l.take.1 l.take.2.column) h.symm
  have htake : ∀ r r' : TokenReader, r.line = r'.line → r.take.2.line = r'.take.2.line :=
    fun _ _ h => congrArg (fun l : LineCursor => l.take.2) h
  fun_induction restValue e r with
  | case1 e r r₁ e' remark? hnext ih =>
    intro r' h
    rw [restValue_of_next ((hfeed e r r' h).trans hnext)]
    exact ih _ (by rw [TokenReader.noteAny_line, TokenReader.noteAny_line, htake r r' h])
  | case2 e r r₁ x symbols remark hdone =>
    intro r' h
    rw [restValue_of_done ((hfeed e r r' h).trans hdone)]
    exact ⟨rfl, rfl, htake r r' h⟩
  | case3 e r r₁ i hstopped =>
    intro r' h
    rw [restValue_of_stopped ((hfeed e r r' h).trans hstopped)]
    exact ⟨rfl, rfl, htake r r' h⟩

/-- **The streams play no part in the evaluation of a line.** -/
theorem restValue_on (e : Evaluation) (r : TokenReader) (input : Input) (output : Output) :
    restValue e (r.on input output) =
      ((restValue e r).1, (restValue e r).2.on input output) := by
  fun_induction restValue e r with
  | case1 e r r₁ e' remark? hnext ih =>
    rw [restValue_of_next (r := r.on input output) hnext]
    exact (congrArg (restValue e') (TokenReader.noteAny_on remark? r.take.2 input output)).trans ih
  | case2 e r r₁ x symbols remark hdone =>
    rw [restValue_of_done (r := r.on input output) hdone]
    rfl
  | case3 e r r₁ i hstopped =>
    rw [restValue_of_stopped (r := r.on input output) hstopped]
    rfl

end RestValue

/-! ## Prompts and answers -/

/-- **What a session writes before it reads a line**, if it needs one. -/
def promptText (s : Session) : String :=
  if s.reader.line.phase.isFinished then s.reader.prompt else ""

/-- **The answer to a line**, which has a value or was interrupted. -/
def answerText (line : List Char) : Except Interrupt Float → String
  | .ok x => Layout.answer.write x ++ "\n"
  | .error (.failed d) => diagnosticText d line ++ absenceText
  | .error (.ended ending) => closingText ending
  | .error (.fatal _) => ""

/-- **Whether the session ends** with a line. -/
def answerResult : Except Interrupt Float → Except FatalError (Option Ending)
  | .ok _ | .error (.failed _) => .ok none
  | .error (.ended ending) => .ok (some ending)
  | .error (.fatal err) => .error err

/-- **A line is answered**, which has a value or was interrupted. -/
def answer (value : Except Interrupt Float) (s : Session) :
    Except FatalError (Option Ending) × Session :=
  match value with
  | .ok x =>
    let (result, s) := s.write (Layout.answer.write x ++ "\n")
    (result.map fun _ => none, s)
  | .error (.failed d) =>
    let (result, s) := s.answerFailure d
    (result.map fun _ => none, s)
  | .error (.ended ending) =>
    let (result, s) := s.write (closingText ending)
    (result.map fun _ => some ending, s)
  | .error (.fatal err) => (.error err, s)

/-- A step evaluates a line and answers it. -/
theorem step_eq_answer (s : Session) : s.step = answer s.lineValue.1 s.lineValue.2 := by
  rw [step]
  generalize s.lineValue = p
  obtain ⟨(d | ending | err) | x, s'⟩ := p <;> rfl

/-- The line at hand after the answer to a line. Only the rest of a line that failed is dropped. -/
def answeredLine (l : LineCursor) : Except Interrupt Float → LineCursor
  | .error (.failed _) => l.dropRest
  | _ => l

/-! ## What a step results in -/

variable {s : Session}

/-- The answer to a line that failed is cut off if the diagnostic does not fit. -/
theorem answerFailure_eq (d : Diagnostic) (s : Session) :
    s.answerFailure d =
      match s.reader.output.write (diagnosticText d s.reader.line.text) with
      | (.error reason, output) =>
        (.error (.stream reason),
          { s with reader := { s.reader.note (.lineFailed d) with output } })
      | (.ok (), output) => write absenceText { s with
          reader := { s.reader.note (.lineFailed d) with
            output, line := s.reader.line.dropRest } } := by
  simp only [answerFailure, write, TokenReader.write, TokenReader.note]
  rcases s.reader.output.write (diagnosticText d s.reader.line.text) with
    ⟨reason | u, output⟩ <;> rfl

theorem write_eq_ok_or_stream (text : String) (s : Session) :
    (s.write text).1 = .ok () ∨ ∃ reason, (s.write text).1 = .error (.stream reason) := by
  rw [write_eq]
  rcases s.reader.output.write text with ⟨reason | u, output⟩
  · exact .inr ⟨reason, rfl⟩
  · exact .inl rfl

theorem answerFailure_eq_ok_or_stream (d : Diagnostic) (s : Session) :
    (s.answerFailure d).1 = .ok () ∨ ∃ reason, (s.answerFailure d).1 = .error (.stream reason) := by
  rw [answerFailure_eq]
  split
  · exact .inr ⟨_, rfl⟩
  · exact write_eq_ok_or_stream _ _

/-- What an answer results in, unless it cannot be written. -/
theorem answer_result (value : Except Interrupt Float) (s : Session) :
    (answer value s).1 = answerResult value ∨
      ∃ reason, (answer value s).1 = .error (.stream reason) := by
  match value with
  | .ok x =>
    rcases write_eq_ok_or_stream (Layout.answer.write x ++ "\n") s with h | ⟨reason, h⟩
    · exact .inl (by simp only [answer, h]; rfl)
    · exact .inr ⟨reason, by simp only [answer, h]; rfl⟩
  | .error (.failed d) =>
    rcases answerFailure_eq_ok_or_stream d s with h | ⟨reason, h⟩
    · exact .inl (by simp only [answer, h]; rfl)
    · exact .inr ⟨reason, by simp only [answer, h]; rfl⟩
  | .error (.ended ending) =>
    rcases write_eq_ok_or_stream (closingText ending) s with h | ⟨reason, h⟩
    · exact .inl (by simp only [answer, h]; rfl)
    · exact .inr ⟨reason, by simp only [answer, h]; rfl⟩
  | .error (.fatal err) => exact .inl rfl

/-- **What a step results in**, unless its answer cannot be written. -/
theorem step_result (s : Session) :
    s.step.1 = answerResult s.lineValue.1 ∨ ∃ reason, s.step.1 = .error (.stream reason) := by
  rw [step_eq_answer]
  exact answer_result _ _

theorem eq_ended_of_answerResult {value : Except Interrupt Float} {ending : Ending}
    (h : answerResult value = .ok (some ending)) : value = .error (.ended ending) := by
  obtain (d | ending' | err) | x := value <;> cases h
  rfl

theorem eq_fatal_of_answerResult {value : Except Interrupt Float} {err : FatalError}
    (h : answerResult value = .error err) : value = .error (.fatal err) := by
  obtain (d | ending' | err') | x := value <;> cases h
  rfl

/-- A session ends because its line does. -/
theorem lineValue_of_ended {ending : Ending} (h : s.step.1 = .ok (some ending)) :
    s.lineValue.1 = .error (.ended ending) := by
  rcases s.step_result with hresult | ⟨reason, hresult⟩
  · exact eq_ended_of_answerResult (hresult.symm.trans h)
  · cases hresult.symm.trans h

/-- A session breaks down over a text that is no number because its line does. -/
theorem lineValue_of_invalidNumber {text : String} {column : Nat}
    (h : s.step.1 = .error (.invalidNumber text column)) :
    s.lineValue.1 = .error (.fatal (.invalidNumber text column)) := by
  rcases s.step_result with hresult | ⟨reason, hresult⟩
  · exact eq_fatal_of_answerResult (hresult.symm.trans h)
  · cases hresult.symm.trans h

/-- What is met where no line can be had. -/
theorem ready_error_cases {r r' : TokenReader} {i : Interrupt} (h : r.ready = (.error i, r')) :
    r.line.phase.isFinished = true ∧
      (i = .ended .endOfInput ∧ r.input.bytes = [] ∧ r.input.failure? = none ∨
        ∃ reason, i = .fatal (.stream reason)) := by
  rw [TokenReader.ready] at h
  split at h
  · next hf =>
    refine ⟨hf, ?_⟩
    rw [TokenReader.fetch, TokenReader.write_eq] at h
    generalize r.output.write r.prompt = p at h
    obtain ⟨reason | u, output⟩ := p
    · cases h
      exact .inr ⟨reason, rfl⟩
    · simp only [TokenReader.receive, Except.mapError] at h
      rcases r.input.fetch_cases with
        ⟨text, bytes, hfetch⟩ | ⟨hb, hnone, hfetch⟩ | ⟨reason, -, hfetch⟩
      · simp [hfetch] at h
      · simp only [hfetch] at h
        cases h
        exact .inl ⟨rfl, hb, hnone⟩
      · simp only [hfetch] at h
        cases h
        exact .inr ⟨reason, rfl⟩
  · cases h

/-- A line that is cut short for a reason of its own is at hand. -/
theorem exists_ready_of_error {i : Interrupt} (hi : s.lineValue.1 = .error i)
    (hend : i ≠ .ended .endOfInput) (hstream : ∀ reason, i ≠ .fatal (.stream reason)) :
    ∃ r, s.reader.ready = (.ok (), r) := by
  rcases hready : s.reader.ready with ⟨j | u, r⟩
  · rw [lineValue, hready] at hi
    cases hi
    rcases ready_error_cases hready with ⟨-, ⟨rfl, -⟩ | ⟨reason, rfl⟩⟩
    · exact absurd rfl hend
    · exact absurd rfl (hstream reason)
  · exact ⟨r, rfl⟩

/-! ## What a step does if its output has no limit -/

/-- Being ready for a line writes a prompt, if a line is needed, and nothing else. -/
theorem ready_of_unlimited (h : s.reader.output.room? = none) :
    s.reader.ready.2.output = s.reader.output.extend s.promptText ∧
      s.reader.ready.2.prompt = s.reader.prompt := by
  rw [TokenReader.ready, promptText]
  split
  · rw [TokenReader.fetch, TokenReader.write_of_unlimited h]
    simp only [TokenReader.receive]
    split <;> exact ⟨rfl, rfl⟩
  · exact ⟨by simp [Output.extend], rfl⟩

theorem lineValue_of_unlimited (h : s.reader.output.room? = none) :
    s.lineValue.2.reader.output = s.reader.output.extend s.promptText ∧
      s.lineValue.2.reader.prompt = s.reader.prompt := by
  obtain ⟨houtput, hprompt⟩ := ready_of_unlimited h
  rw [lineValue]
  split
  · next r hr =>
    rw [hr] at houtput hprompt
    obtain ⟨hp, ho, -⟩ := restValue_frame (Evaluation.start s.symbols) r
    exact ⟨ho.trans houtput, hp.trans hprompt⟩
  · next i r hr =>
    rw [hr] at houtput hprompt
    exact ⟨houtput, hprompt⟩

theorem answerFailure_of_unlimited (h : s.reader.output.room? = none) (d : Diagnostic) :
    s.answerFailure d = (.ok (), { s with reader := { s.reader.note (.lineFailed d) with
      output := s.reader.output.extend (diagnosticText d s.reader.line.text ++ absenceText)
      line := s.reader.line.dropRest } }) := by
  rw [answerFailure_eq, Output.write_of_unlimited h]
  dsimp only
  rw [write_of_unlimited (by exact h), ← Output.extend_extend]
  rfl

/-- An answer that is written leaves the rest of the session alone. -/
theorem answer_of_unlimited (h : s.reader.output.room? = none) (value : Except Interrupt Float) :
    (answer value s).1 = answerResult value ∧
      (answer value s).2.reader.output =
        s.reader.output.extend (answerText s.reader.line.text value) ∧
      (answer value s).2.reader.line = answeredLine s.reader.line value ∧
      (answer value s).2.reader.prompt = s.reader.prompt := by
  match value with
  | .ok x =>
    rw [answer, write_of_unlimited h]
    exact ⟨rfl, rfl, rfl, rfl⟩
  | .error (.failed d) =>
    rw [answer, answerFailure_of_unlimited h]
    exact ⟨rfl, rfl, rfl, rfl⟩
  | .error (.ended ending) =>
    rw [answer, write_of_unlimited h]
    exact ⟨rfl, rfl, rfl, rfl⟩
  | .error (.fatal err) => exact ⟨rfl, by simp [answer, Output.extend, answerText], rfl, rfl⟩

/-- **What a step does if its output has no limit**: it writes the prompt, if it needs a line, and
the answer to the line. -/
theorem step_of_unlimited (h : s.reader.output.room? = none) :
    s.step.1 = answerResult s.lineValue.1 ∧
      s.step.2.reader.output = s.reader.output.extend
        (s.promptText ++ answerText s.lineValue.2.reader.line.text s.lineValue.1) ∧
      s.step.2.reader.line = answeredLine s.lineValue.2.reader.line s.lineValue.1 ∧
      s.step.2.reader.prompt = s.reader.prompt := by
  obtain ⟨houtput, hprompt⟩ := lineValue_of_unlimited h
  rw [← Output.extend_extend, ← houtput, ← hprompt, step_eq_answer]
  exact answer_of_unlimited (by rw [houtput]; exact h) _

end Session

end StackCalculator
