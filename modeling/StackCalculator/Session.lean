import StackCalculator.Evaluation
import StackCalculator.TokenReader

/-!
# Sessions

A session evaluates one line after the other and answers each with its value or with a diagnostic:
the message, the line, a caret under the column of the fault, and a last line that says there is no
value. It ends when `exit` is typed or the lines run out, after a farewell, and breaks down on a
fatal error. From line to line it keeps nothing but the values of the names and what is left of the
line at hand.

## Main definitions

* `Session`: a reader of tokens and the values of the names
* `Session.lineValue`: the value of a line, token by token
* `Session.step`: a line and its answer
* `Session.run`: lines until the session ends
* `transcript`: all that a session over a text writes

## Main results

* `Session.weight_step_lt`: a step after which the session goes on leaves less to read
-/

namespace StackCalculator

/-- **A session**: a reader of tokens and the values of the names. -/
structure Session where
  reader : TokenReader
  symbols : SymbolTable

namespace Session

/-- A session that has read nothing and knows no name. -/
def new (prompt : String) (input : Input) (output : Output) : Session :=
  ⟨TokenReader.new prompt input output, ∅⟩

/-- What follows a diagnostic in place of a value. -/
def absenceText : String := "no value\n"

/-- What is written when the session ends. The prompt for a missing line still waits for one. -/
def closingText : Ending → String
  | .exit => "Bye\n"
  | .endOfInput => "\nBye\n"

/-- **The rest of the line at hand**, evaluated token by token until it has a value or is
interrupted. -/
def restValue (e : Evaluation) (r : TokenReader) : Except Interrupt Float × Session :=
  let r' := r.take.2
  match _ : e.feed r.take.1 r'.line.column with
  | .next e' remark? => restValue e' (r'.noteAny remark?)
  | .done x symbols remark => (.ok x, ⟨r'.note remark, symbols⟩)
  | .stopped i => (.error i, ⟨r', e.symbols⟩)
termination_by r.line.remaining
decreasing_by
  rw [TokenReader.noteAny_line]
  exact LineCursor.remaining_take_lt (Evaluation.ne_endOfLine_of_next ‹_›)

/-- **The value of a line**: of what is left of the line at hand, or of the next one. -/
def lineValue (s : Session) : Except Interrupt Float × Session :=
  match s.reader.ready with
  | (.ok (), r) => restValue (Evaluation.start s.symbols) r
  | (.error i, r) => (.error i, ⟨r, s.symbols⟩)

/-- Writing a text to the output. -/
def write (text : String) (s : Session) : Except FatalError Unit × Session :=
  let ⟨reader, symbols⟩ := s
  let (result, reader) := reader.write text
  (result, ⟨reader, symbols⟩)

/-- **The text of a diagnostic**: its message, the line, and a caret under its column. -/
def diagnosticText (d : Diagnostic) (line : List Char) : String :=
  d.fault.message ++ "\n" ++ String.ofList line ++ "\n"
    ++ String.ofList (List.replicate (d.column - 1) ' ') ++ "^\n"

/-- The answer to a line that failed. Its rest is dropped once the diagnostic is written. -/
def answerFailure (d : Diagnostic) (s : Session) : Except FatalError Unit × Session :=
  let s : Session := { s with reader := s.reader.note (.lineFailed d) }
  match s.write (diagnosticText d s.reader.line.text) with
  | (.ok (), s) => write absenceText { s with reader := s.reader.dropRest }
  | (.error err, s) => (.error err, s)

/-- **A line and its answer**, and whether the session ends with it. -/
def step (s : Session) : Except FatalError (Option Ending) × Session :=
  match s.lineValue with
  | (.ok x, s) =>
    let (result, s) := s.write (Layout.answer.write x ++ "\n")
    (result.map fun _ => none, s)
  | (.error (.failed d), s) =>
    let (result, s) := s.answerFailure d
    (result.map fun _ => none, s)
  | (.error (.ended ending), s) =>
    let (result, s) := s.write (closingText ending)
    (result.map fun _ => some ending, s)
  | (.error (.fatal err), s) => (.error err, s)

/-- What is left to read: the bytes to come, and half as much for a line that is not finished. -/
def weight (s : Session) : Nat :=
  2 * s.reader.input.bytes.length + if s.reader.line.phase.isFinished then 0 else 1

@[simp]
theorem write_reader_input (text : String) (s : Session) :
    (s.write text).2.reader.input = s.reader.input :=
  TokenReader.write_input text s.reader

@[simp]
theorem write_reader_line (text : String) (s : Session) :
    (s.write text).2.reader.line = s.reader.line :=
  TokenReader.write_line text s.reader

theorem restValue_input (e : Evaluation) (r : TokenReader) :
    (restValue e r).2.reader.input = r.input := by
  fun_induction restValue e r with
  | case1 e r r' e' remark? h ih => simpa [r'] using ih
  | case2 => rfl
  | case3 => rfl

/-- A line that has a value is finished. -/
theorem isFinished_of_restValue {e : Evaluation} {r : TokenReader} {x : Float}
    (hx : (restValue e r).1 = .ok x) : (restValue e r).2.reader.line.phase.isFinished = true := by
  fun_induction restValue e r with
  | case1 e r r' e' remark? h ih => exact ih hx
  | case2 e r r' y symbols remark h =>
    have ht : r.line.upcoming = .endOfLine := Evaluation.eq_endOfLine_of_done h
    simp [r', LineCursor.take_phase_of_endOfLine ht, Phase.isFinished]
  | case3 => cases hx

@[simp]
theorem step_reader_input (s : Session) : s.step.2.reader.input = s.lineValue.2.reader.input := by
  simp only [step]
  split
  · next h => simp [h]
  · next h =>
    simp only [answerFailure, h]
    split
    · next hw => simpa [hw, TokenReader.dropRest] using congrArg (·.2.reader.input) hw.symm
    · next hw => simpa [hw] using congrArg (·.2.reader.input) hw.symm
  · next h => simp [h]
  · next h => simp [h]

theorem map_eq_ok_none {ε : Type} {r : Except ε Unit} {o : Option Ending}
    (h : (r.map fun _ => o) = .ok none) : r = .ok () ∧ o = none := by
  cases r with
  | error e => cases h
  | ok u => exact ⟨rfl, Except.ok.inj h⟩

/-- A step after which the session goes on finishes its line. -/
theorem isFinished_of_step {s : Session} (h : s.step.1 = .ok none) :
    s.step.2.reader.line.phase.isFinished = true := by
  revert h
  simp only [step]
  split
  · next x s' hv =>
    intro _
    have hl : s.lineValue.1 = .ok x := by rw [hv]
    simp only [lineValue] at hl hv
    split at hl
    · next r hr =>
      have := isFinished_of_restValue hl
      simp only [hr] at hv
      simpa [hv] using this
    · cases hl
  · next d s' hv =>
    intro h
    have hw := (map_eq_ok_none h).1
    revert hw
    simp only [answerFailure]
    split
    · intro _
      simp [TokenReader.dropRest, Phase.isFinished]
    · simp
  · next hv =>
    intro h
    simpa using (map_eq_ok_none h).2
  · simp

/-- Being ready for a line never fails the line. -/
theorem ne_failed_of_ready {r : TokenReader} {i : Interrupt} (h : r.ready.1 = .error i)
    (d : Diagnostic) : i ≠ .failed d := by
  rintro rfl
  simp only [TokenReader.ready] at h
  split at h
  · simp only [TokenReader.fetch] at h
    split at h
    · simp only [TokenReader.receive] at h
      split at h <;> simp at h
    · simp at h
  · simp at h

/-- A step after which the session goes on had a line to evaluate. -/
theorem ready_of_step {s : Session} (h : s.step.1 = .ok none) : s.reader.ready.1 = .ok () := by
  cases hr : s.reader.ready with
  | mk result r =>
    cases result with
    | ok u => rfl
    | error i =>
      exfalso
      have he : s.lineValue = (.error i, ⟨r, s.symbols⟩) := by simp [lineValue, hr]
      simp only [step, he] at h
      cases i with
      | failed d => exact ne_failed_of_ready (by rw [hr]) d rfl
      | ended ending => simpa using (map_eq_ok_none h).2
      | fatal err => cases h

theorem lineValue_reader_input {s : Session} (h : s.reader.ready.1 = .ok ()) :
    s.lineValue.2.reader.input = s.reader.ready.2.input := by
  cases hr : s.reader.ready with
  | mk result r =>
    rw [hr] at h
    cases h
    simp only [lineValue, hr]
    exact restValue_input _ _

/-- **A step after which the session goes on leaves less to read.** -/
theorem weight_step_lt {s : Session} (h : s.step.1 = .ok none) : s.step.2.weight < s.weight := by
  have hr := ready_of_step h
  have hin : s.step.2.reader.input = s.reader.ready.2.input := by
    rw [step_reader_input, lineValue_reader_input hr]
  simp only [weight, isFinished_of_step h, hin]
  simp only [TokenReader.ready] at hr ⊢
  split
  · next hf =>
    rw [if_pos hf] at hr
    have := TokenReader.length_fetch_lt hr
    simp
    omega
  · simp

/-- **Lines until the session ends.** -/
def run (s : Session) : Except FatalError Ending × Session :=
  match _ : s.step with
  | (.ok none, s') => run s'
  | (.ok (some ending), s') =>
    (.ok ending, { s' with reader := s'.reader.note (.sessionEnded ending) })
  | (.error err, s') => (.error err, s')
termination_by s.weight
decreasing_by
  have hs : s.step = (.ok none, s') := ‹_›
  have := weight_step_lt (s := s) (by rw [hs])
  rwa [hs] at this

end Session

/-- **All that a session over a text writes**, unless it breaks down. -/
def transcript (source : String) : Except FatalError String :=
  let input : Input := ⟨source.toUTF8.toList, none⟩
  let (result, s) := (Session.new TokenReader.defaultPrompt input (Output.empty none)).run
  result.map fun _ => String.ofList (Utf8.decode s.reader.output.written.toList)

end StackCalculator
