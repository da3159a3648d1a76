import StackCalculator.CommandLine.Arguments
import StackCalculator.Session

/-!
# The program

The program reads its arguments and runs a session over its standard input or a file. The session
writes to standard output; the journal goes to standard error, record by record, up to the level
that the arguments choose, and a fatal error is the last line there.

## Main definitions

* `Outcome`: what a run of the program leaves behind
* `runProgram`: the outcome for arguments, a standard input, and files
-/

namespace StackCalculator

/-- **What a run of the program leaves behind**: an exit code and what it wrote. -/
structure Outcome where
  code : Nat
  stdout : ByteArray
  stderr : String

/-- The answer to the question for the version. -/
def versionText : String := "tally 0.1.0\n"

/-- The answer to the question for help. -/
def helpText : String :=
  "tally is an interactive stack calculator: type numbers, variables and operators on a line and "
    ++ "get the result back\n\n"
    ++ "Usage: tally [OPTIONS]\n\n"
    ++ "Options:\n"
    ++ "  -f, --file <FILE>      Reads expressions from a file instead of standard input\n"
    ++ "  -p, --prompt <PROMPT>  Text written before each line is read [default: \">> \"]\n"
    ++ "  -v, --verbose...       Logs evaluation details to standard error. "
    ++ "Repeat for more detail\n"
    ++ "  -h, --help             Print help\n"
    ++ "  -V, --version          Print version\n"

/-- What is said about arguments that cannot be read. -/
def usageText (e : ArgumentError) : String :=
  "error: " ++ e.message ++ "\n\nUsage: tally [OPTIONS]\n\nFor more information, try '--help'.\n"

/-- What is said about a file that cannot be opened. -/
def unopenedText (path : String) : String :=
  "Failed to read the input file '" ++ path ++ "'. Perhaps this file does not exist?\n"

/-- The prompt that options choose. -/
def Options.prompt (o : Options) : String :=
  o.prompt?.getD TokenReader.defaultPrompt

/-- The level up to which options ask for the journal. -/
def Options.level (o : Options) : Level :=
  Level.ofVerbosity o.verbosity

/-- A text for each of some lines. -/
def linesText (lines : List String) : String :=
  String.join (lines.map (· ++ "\n"))

/-- The outcome of a session that ran to its end. -/
def sessionOutcome (level : Level) (result : Except FatalError Ending) (s : Session) : Outcome :=
  let records := journalRecords level s.reader.journal.reverse
  match result with
  | .ok _ => ⟨0, s.reader.output.written, linesText records⟩
  | .error err => ⟨1, s.reader.output.written, linesText (records ++ [err.message])⟩

/-- **The outcome of the program.** A file that cannot be opened has no input. -/
def runProgram (arguments : List String) (standardInput : Input)
    (openFile : String → Option Input) : Outcome :=
  match readArguments arguments with
  | .error .version => ⟨0, versionText.toUTF8, ""⟩
  | .error .help => ⟨0, helpText.toUTF8, ""⟩
  | .error (.invalid e) => ⟨2, ByteArray.empty, usageText e⟩
  | .ok options =>
    let input? := match options.file? with
      | none => some standardInput
      | some path => openFile path
    match input? with
    | none => ⟨1, ByteArray.empty, unopenedText (options.file?.getD "")⟩
    | some input =>
      let (result, s) := (Session.new options.prompt input (Output.empty none)).run
      sessionOutcome options.level result s

end StackCalculator
