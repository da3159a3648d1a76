/-!
# Command line arguments

Arguments are read from left to right. An option that takes a value finds it attached to its name,
or in the next argument if that does not look like an option. Nothing about an option is checked
before the next one is met or the arguments end; from then on it is settled, and may not come again.
Asking for the version or for help ends the reading, and what follows is not looked at.

## Main definitions

* `Options`: what can be chosen on the command line
* `ArgumentError`: what can be wrong with the arguments
* `ArgumentStop`: why reading ends before the arguments do
* `readArguments`: the options that arguments choose
-/

namespace StackCalculator

/-- **What can be chosen on the command line**: a file to read, a prompt, and how much to log. -/
structure Options where
  file? : Option String
  prompt? : Option String
  verbosity : Nat
deriving DecidableEq, Repr

/-- The options that take a value. -/
inductive ValueOption where
  | file
  | prompt
deriving DecidableEq, Repr

/-- The long name of an option that takes a value. -/
def ValueOption.name : ValueOption → String
  | file => "--file"
  | prompt => "--prompt"

/-- The options that take none. -/
inductive FlagOption where
  | verbose
  | version
  | help
deriving DecidableEq, Repr

/-- **What can be wrong with arguments.** -/
inductive ArgumentError where
  /-- The option has no value, or an empty one that it cannot take. -/
  | missingValue (option : ValueOption)
  /-- The option was already given. -/
  | repeated (option : ValueOption)
  /-- The option takes no value but has one. -/
  | unneededValue (argument : String)
  /-- The argument is no option, and no option waits for it. -/
  | unexpected (argument : String)
deriving DecidableEq, Repr

/-- **Why reading ends before the arguments do.** -/
inductive ArgumentStop where
  | version
  | help
  | invalid (e : ArgumentError)
deriving DecidableEq, Repr

/-- The message of an argument error. -/
def ArgumentError.message : ArgumentError → String
  | missingValue option => "a value is required for '" ++ option.name ++ "' but none was supplied"
  | repeated option => "the argument '" ++ option.name ++ "' cannot be used multiple times"
  | unneededValue argument => "unexpected value in '" ++ argument ++ "'"
  | unexpected argument => "unexpected argument '" ++ argument ++ "' found"

/-- **How far arguments are read**: what is settled, and the option met last, with its value if it
has one already. -/
structure ArgumentReader where
  options : Options
  open? : Option (ValueOption × Option String)
deriving DecidableEq, Repr

namespace ArgumentReader

/-- Nothing read. -/
def start : ArgumentReader :=
  ⟨⟨none, none, 0⟩, none⟩

/-- An option gets its value. A file has a name. -/
def setValue (option : ValueOption) (value : String) (r : ArgumentReader) :
    Except ArgumentStop ArgumentReader :=
  match option with
  | .file =>
    if r.options.file?.isSome then .error (.invalid (.repeated .file))
    else if value = "" then .error (.invalid (.missingValue .file))
    else .ok { r with options.file? := some value }
  | .prompt =>
    if r.options.prompt?.isSome then .error (.invalid (.repeated .prompt))
    else .ok { r with options.prompt? := some value }

/-- The option met last is settled. -/
def settle (r : ArgumentReader) : Except ArgumentStop ArgumentReader :=
  match r.open? with
  | none => .ok r
  | some (option, none) => .error (.invalid (.missingValue option))
  | some (option, some value) => setValue option value { r with open? := none }

/-- An option without a value is met. Verbosity counts to `255`. -/
def readFlag (flag : FlagOption) (r : ArgumentReader) : Except ArgumentStop ArgumentReader := do
  let r ← r.settle
  match flag with
  | .verbose => .ok { r with options.verbosity := min (r.options.verbosity + 1) 255 }
  | .version => .error .version
  | .help => .error .help

/-- An option with a value is met, the value attached or still to come. -/
def readOption (option : ValueOption) (attached? : Option String) (r : ArgumentReader) :
    Except ArgumentStop ArgumentReader := do
  let r ← r.settle
  match attached? with
  | some value => r.setValue option value
  | none => .ok { r with open? := some (option, none) }

/-- A value attached to a short name, without one equals sign before it. -/
def attachedValue? : List Char → Option String
  | [] => none
  | '=' :: cs => some (String.ofList cs)
  | cs => some (String.ofList cs)

/-- **Short names in one argument.** The first that takes a value takes what follows it. -/
def readShort (r : ArgumentReader) : List Char → Except ArgumentStop ArgumentReader
  | [] => .ok r
  | 'f' :: cs => r.readOption .file (attachedValue? cs)
  | 'p' :: cs => r.readOption .prompt (attachedValue? cs)
  | 'v' :: cs => do readShort (← r.readFlag .verbose) cs
  | 'V' :: cs => do readShort (← r.readFlag .version) cs
  | 'h' :: cs => do readShort (← r.readFlag .help) cs
  | c :: _ => .error (.invalid (.unexpected (String.ofList ['-', c])))

/-- **A long name**, with the value behind its first equals sign. -/
def readLong (r : ArgumentReader) (cs : List Char) : Except ArgumentStop ArgumentReader :=
  let name := String.ofList (cs.takeWhile (· ≠ '='))
  let value? := (cs.dropWhile (· ≠ '=')).tail?.map String.ofList
  let argument := "--" ++ String.ofList cs
  let flag (f : FlagOption) : Except ArgumentStop ArgumentReader :=
    if value?.isSome then .error (.invalid (.unneededValue argument)) else r.readFlag f
  match name with
  | "file" => r.readOption .file value?
  | "prompt" => r.readOption .prompt value?
  | "verbose" => flag .verbose
  | "version" => flag .version
  | "help" => flag .help
  | _ => .error (.invalid (.unexpected argument))

/-- An argument that looks like no option: the value of an option that waits for one. -/
def readValue (r : ArgumentReader) (argument : String) : Except ArgumentStop ArgumentReader :=
  match r.open? with
  | some (option, none) => .ok { r with open? := some (option, some argument) }
  | _ => .error (.invalid (.unexpected argument))

/-- **One argument.** A lone dash is a value. -/
def readArgument (r : ArgumentReader) (argument : String) : Except ArgumentStop ArgumentReader :=
  match argument.toList with
  | '-' :: '-' :: cs => r.readLong cs
  | '-' :: c :: cs => r.readShort (c :: cs)
  | _ => r.readValue argument

/-- **Argument by argument.** Two dashes end the options, and nothing may follow them. -/
def readAll (r : ArgumentReader) : List String → Except ArgumentStop ArgumentReader
  | [] => r.settle
  | argument :: rest => do
    if argument = "--" then
      match rest with
      | [] => r.settle
      | next :: _ => .error (.invalid (.unexpected next))
    else readAll (← r.readArgument argument) rest

end ArgumentReader

/-- **The options that arguments choose.** -/
def readArguments (arguments : List String) : Except ArgumentStop Options :=
  (ArgumentReader.start.readAll arguments).map ArgumentReader.options

end StackCalculator
