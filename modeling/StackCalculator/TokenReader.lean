import StackCalculator.Journal
import StackCalculator.LineCursor
import StackCalculator.Stream.Input
import StackCalculator.Stream.Output

/-!
# A reader of tokens

Tokens are read from an input, line by line. Whenever a line is needed, a prompt is written to the
output and one line is read; if that fails, the reader still holds the line it had.

## Main definitions

* `TokenReader`: the input, the output, the prompt, the line at hand, and the journal
* `TokenReader.fetch`: prompting for a line and reading it
* `TokenReader.next`: the next token, from the next line if need be

## Main results

* `TokenReader.length_fetch_lt`: a line that is fetched takes at least one byte of the input
-/

namespace StackCalculator

/-- **A reader of tokens.** The journal holds its latest remark first. -/
structure TokenReader where
  prompt : String
  input : Input
  output : Output
  line : LineCursor
  journal : List Remark

namespace TokenReader

/-- The prompt used unless another is chosen. -/
def defaultPrompt : String := ">> "

/-- A reader that has read nothing. -/
def new (prompt : String) (input : Input) (output : Output) : TokenReader :=
  ⟨prompt, input, output, LineCursor.none, []⟩

/-- A remark for the journal. -/
def note (remark : Remark) (r : TokenReader) : TokenReader :=
  { r with journal := remark :: r.journal }

/-- A remark for the journal, if there is one. -/
def noteAny (remark? : Option Remark) (r : TokenReader) : TokenReader :=
  match remark? with
  | some remark => r.note remark
  | none => r

/-- Writing a text to the output. -/
def write (text : String) (r : TokenReader) : Except FatalError Unit × TokenReader :=
  let ⟨prompt, input, output, line, journal⟩ := r
  match output.write text with
  | (.ok (), output) => (.ok (), ⟨prompt, input, output, line, journal⟩)
  | (.error reason, output) => (.error (.stream reason), ⟨prompt, input, output, line, journal⟩)

/-- Reading one line of the input. -/
def receive (r : TokenReader) : Except Interrupt Unit × TokenReader :=
  match r.input.fetch with
  | (.line text, input) =>
    (.ok (), note (.lineRead (String.ofList text)) { r with input, line := LineCursor.ofLine text })
  | (.exhausted, input) => (.error (.ended .endOfInput), note .inputExhausted { r with input })
  | (.failed reason, input) => (.error (.fatal (.stream reason)), { r with input })

/-- **Prompting for a line and reading it.** -/
def fetch (r : TokenReader) : Except Interrupt Unit × TokenReader :=
  match r.write r.prompt with
  | (.ok (), r) => r.receive
  | (.error err, r) => (.error (.fatal err), r)

/-- A line is at hand, after this. -/
def ready (r : TokenReader) : Except Interrupt Unit × TokenReader :=
  if r.line.phase.isFinished then r.fetch else (.ok (), r)

/-- Taking the next token of the line at hand. -/
def take (r : TokenReader) : Token × TokenReader :=
  let (token, line) := r.line.take
  (token, note (.tokenTaken token line.column) { r with line })

/-- **The next token**, from the next line if this one is finished. -/
def next (r : TokenReader) : Except Interrupt Token × TokenReader :=
  match r.ready with
  | (.ok (), r) => (.ok r.take.1, r.take.2)
  | (.error i, r) => (.error i, r)

/-- Putting back the token taken last. -/
def putBack (r : TokenReader) : TokenReader :=
  { r with line := r.line.putBack }

/-- Dropping the rest of the line. -/
def dropRest (r : TokenReader) : TokenReader :=
  { r with line := r.line.dropRest }

@[simp]
theorem write_input (text : String) (r : TokenReader) : (r.write text).2.input = r.input := by
  simp only [write]
  split <;> rfl

@[simp]
theorem write_line (text : String) (r : TokenReader) : (r.write text).2.line = r.line := by
  simp only [write]
  split <;> rfl

@[simp]
theorem note_input (remark : Remark) (r : TokenReader) : (note remark r).input = r.input := rfl

@[simp]
theorem note_line (remark : Remark) (r : TokenReader) : (note remark r).line = r.line := rfl

@[simp]
theorem noteAny_input (remark? : Option Remark) (r : TokenReader) :
    (r.noteAny remark?).input = r.input := by
  cases remark? <;> rfl

@[simp]
theorem noteAny_line (remark? : Option Remark) (r : TokenReader) :
    (r.noteAny remark?).line = r.line := by
  cases remark? <;> rfl

@[simp]
theorem take_input (r : TokenReader) : r.take.2.input = r.input := rfl

@[simp]
theorem take_line (r : TokenReader) : r.take.2.line = r.line.take.2 := rfl

theorem length_receive_lt {r : TokenReader} (h : r.receive.1 = .ok ()) :
    r.receive.2.input.bytes.length < r.input.bytes.length := by
  revert h
  simp only [receive]
  split
  · next text input hf =>
    intro _
    have := @Input.length_fetch_lt r.input text (by rw [hf])
    rwa [hf] at this
  · simp
  · simp

/-- **A line that is fetched takes at least one byte of the input.** -/
theorem length_fetch_lt {r : TokenReader} (h : r.fetch.1 = .ok ()) :
    r.fetch.2.input.bytes.length < r.input.bytes.length := by
  revert h
  simp only [fetch]
  split
  · next r' hw =>
    have hi := write_input r.prompt r
    rw [hw] at hi
    intro h
    rw [← hi]
    exact length_receive_lt h
  · simp

end TokenReader

end StackCalculator
