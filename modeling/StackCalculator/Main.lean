import StackCalculator.CommandLine.Program

/-!
# The command line

The program on real streams. Each step of the session is given the one line it asks for, so that its
answer is seen before the next line is typed.

## Main definitions

* `serve`: a session on real streams, step by step
* `main`: the program
-/

namespace StackCalculator

/-- What the system says about a failure, with its number. -/
def failureReason : IO.Error → String
  | .unexpectedEof => "unexpected end of file"
  | .userError reason => reason
  | .otherError code details | .resourceBusy code details | .resourceVanished code details
  | .unsupportedOperation code details | .hardwareFault code details
  | .unsatisfiedConstraints code details | .illegalOperation code details
  | .protocolError code details | .timeExpired code details
  | .alreadyExists _ code details | .interrupted _ code details
  | .noFileOrDirectory _ code details | .invalidArgument _ code details
  | .permissionDenied _ code details | .resourceExhausted _ code details
  | .inappropriateType _ code details | .noSuchThing _ code details =>
    details ++ " (os error " ++ toString code ++ ")"

/-- The bytes of one line, its line feed included, or what is left before the end. -/
partial def readLine (stream : IO.FS.Stream) (line : List UInt8) : IO (List UInt8) := do
  match (← stream.read 1).toList with
  | [] => return line.reverse
  | b :: _ => if b = Input.lineFeed then return (b :: line).reverse else readLine stream (b :: line)

/-- The input of one step: one line, nothing at the end, or a failure. -/
def nextInput (stream : IO.FS.Stream) : IO Input := do
  try
    return ⟨← readLine stream [], none⟩
  catch e =>
    return ⟨[], some (failureReason e)⟩

/-- The records of some remarks, on standard error. -/
def showRecords (level : Level) (remarks : List Remark) : IO Unit :=
  IO.eprint (linesText (journalRecords level remarks))

/-- **A session on real streams.** The prompt is written before a line is asked for, and the session
itself has none. -/
partial def serve (options : Options) (stream : IO.FS.Stream) (s : Session) : IO UInt32 := do
  let stdout ← IO.getStdout
  stdout.putStr options.prompt
  stdout.flush
  let input ← nextInput stream
  let (result, s) := Session.step ⟨⟨"", input, Output.empty none, s.reader.line, []⟩, s.symbols⟩
  showRecords options.level s.reader.journal.reverse
  stdout.write s.reader.output.written
  stdout.flush
  match result with
  | .ok none => serve options stream s
  | .ok (some ending) =>
    showRecords options.level [.sessionEnded ending]
    return 0
  | .error err =>
    IO.eprint (linesText [err.message])
    return 1

/-- A session over a stream, which a failure to write ends too. -/
def serveStream (options : Options) (stream : IO.FS.Stream) : IO UInt32 := do
  try
    serve options stream (Session.new "" ⟨[], none⟩ (Output.empty none))
  catch e =>
    IO.eprint (linesText [(FatalError.stream (failureReason e)).message])
    return 1

end StackCalculator

open StackCalculator in
/-- **The program.** -/
def main (arguments : List String) : IO UInt32 := do
  match readArguments arguments with
  | .error .version =>
    IO.print versionText
    return 0
  | .error .help =>
    IO.print helpText
    return 0
  | .error (.invalid e) =>
    IO.eprint (usageText e)
    return 2
  | .ok options =>
    match options.file? with
    | none => serveStream options (← IO.getStdin)
    | some path =>
      let handle? ← try some <$> IO.FS.Handle.mk path .read catch _ => pure none
      match handle? with
      | some handle => serveStream options (IO.FS.Stream.ofHandle handle)
      | none =>
        IO.eprint (unopenedText path)
        return 1
