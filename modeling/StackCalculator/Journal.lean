import StackCalculator.Interrupt
import StackCalculator.Number.Layout
import StackCalculator.Token

/-!
# The journal

A session keeps remarks about what it does: lines and tokens read, results, values stored, failures,
the end. Each remark has a level, and a reader of the journal sees those up to a level of choice.

## Main definitions

* `Level`: the levels, from errors to traces
* `Remark`: what can be remarked, with its `level`, `topic` and `message`
* `Remark.record`: the line that shows a remark
* `Level.ofVerbosity`: the level chosen by a number of requests for more
-/

namespace StackCalculator

/-- **The levels of remarks.** -/
inductive Level where
  | error
  | warn
  | info
  | debug
  | trace
deriving DecidableEq, Repr

namespace Level

/-- The levels, the gravest first. -/
def all : List Level :=
  [error, warn, info, debug, trace]

/-- The place of a level, the gravest first. -/
def rank : Level → Nat
  | error => 1
  | warn => 2
  | info => 3
  | debug => 4
  | trace => 5

/-- The word for a level. -/
def name : Level → String
  | error => "ERROR"
  | warn => "WARN"
  | info => "INFO"
  | debug => "DEBUG"
  | trace => "TRACE"

/-- Remarks of the level `l` are seen by a reader of the journal up to `limit`. -/
def seenUpTo (limit l : Level) : Bool :=
  l.rank ≤ limit.rank

/-- **The level chosen by `n` requests for more**: warnings without any, debugging after one. -/
def ofVerbosity : Nat → Level
  | 0 => warn
  | 1 => debug
  | _ => trace

end Level

/-- **What a session remarks.** -/
inductive Remark where
  /-- A line was read. -/
  | lineRead (line : String)
  /-- There was no line to read. -/
  | inputExhausted
  /-- A token was taken from the line. -/
  | tokenTaken (t : Token) (column : Nat)
  /-- Two values were combined. -/
  | combined (op : BinaryOperator) (left right result : Float)
  /-- A value was stored under a name by an assignment, whose text is the target of the line. -/
  | assigned (name : String) (value : Float) (target : String)
  /-- The value of a line was stored under its target. -/
  | stored (target : String) (value : Float)
  /-- The line failed. -/
  | lineFailed (d : Diagnostic)
  /-- The session ended. -/
  | sessionEnded (ending : Ending)
deriving DecidableEq

namespace Remark

/-- The level of a remark. -/
def level : Remark → Level
  | lineRead _ | inputExhausted | assigned .. | stored .. | lineFailed _ => .debug
  | tokenTaken .. | combined .. => .trace
  | sessionEnded _ => .info

/-- The part of the session that a remark is about. -/
def topic : Remark → String
  | lineRead _ | inputExhausted | tokenTaken .. => "tally::interpreter::tokenizer"
  | combined .. => "tally::interpreter::evaluator::binary"
  | assigned .. => "tally::interpreter::evaluator::assign"
  | stored .. => "tally::interpreter::evaluator::core"
  | lineFailed _ | sessionEnded _ => "tally::interpreter::session"

/-- The text of a remark. Numbers are written plainly. -/
def message : Remark → String
  | lineRead line => "read line " ++ quoteText line
  | inputExhausted => "input exhausted"
  | tokenTaken t column => "token " ++ t.description ++ " at column " ++ toString column
  | combined op left right result =>
    Layout.plain.write left ++ " " ++ String.singleton op.symbol ++ " " ++ Layout.plain.write right
      ++ " = " ++ Layout.plain.write result
  | assigned name value target =>
    quoteText name ++ " <- " ++ Layout.plain.write value ++ ", target " ++ quoteText target
  | stored target value => target ++ " <- " ++ Layout.plain.write value
  | lineFailed d => "line failed: " ++ d.description
  | sessionEnded ending => "session ended: " ++ ending.name

/-- **The line that shows a remark.** -/
def record (r : Remark) : String :=
  "[" ++ r.level.name ++ "] " ++ r.topic ++ ": " ++ r.message

end Remark

/-- The records of the remarks that are seen up to a level. -/
def journalRecords (limit : Level) (remarks : List Remark) : List String :=
  (remarks.filter fun r => Level.seenUpTo limit r.level).map Remark.record

end StackCalculator
