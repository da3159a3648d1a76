import StackCalculator.Text.Quoted

/-!
# Interrupts

Whatever stops a line before it has a value. A fault in the line is reported with the column of the
token that shows it, and the session goes on with the next line. The session may come to its end,
when it is told to or has no more lines. A fatal error ends it because it cannot go on.

## Main definitions

* `Fault`, `Diagnostic`: what is wrong with a line, and where
* `Ending`: the two ways a session comes to its end
* `FatalError`: the two ways it breaks down
* `Interrupt`: any of the three
-/

namespace StackCalculator

/-- **What can be wrong with a line.** -/
inductive Fault where
  /-- An operand came after an operator. -/
  | operandAfterOperator
  /-- Negation found no value. -/
  | missingOperand
  /-- A binary operator found fewer than two values. -/
  | insufficientOperands
  /-- The divisor was zero. -/
  | divisionByZero
  /-- Assignment found no value to drop. -/
  | noValueToAssign
  /-- Neither a number nor a name followed `=`. -/
  | expectedVariableAfterAssign
  /-- The character starts no token. -/
  | badToken (c : Char)
  /-- The line did not end with exactly one value. -/
  | malformedExpression
deriving DecidableEq, Repr

/-- **A fault and its column**, counted in characters from one. -/
structure Diagnostic where
  fault : Fault
  column : Nat
deriving DecidableEq, Repr

namespace Fault

/-- The word for a fault. -/
def name : Fault → String
  | operandAfterOperator => "OperandAfterOperator"
  | missingOperand => "MissingOperand"
  | insufficientOperands => "InsufficientOperands"
  | divisionByZero => "DivisionByZero"
  | noValueToAssign => "NoValueToAssign"
  | expectedVariableAfterAssign => "ExpectedVariableAfterAssign"
  | badToken _ => "BadToken"
  | malformedExpression => "MalformedExpression"

/-- **The message that reports a fault.** -/
def message : Fault → String
  | operandAfterOperator => "Operand encountered after an operator"
  | missingOperand => "No operand for unary minus"
  | insufficientOperands => "Too few operands for binary operator"
  | divisionByZero => "Division by zero"
  | noValueToAssign => "No value to assign"
  | expectedVariableAfterAssign => "Expected variable after '='"
  | badToken c => "Bad token: " ++ String.singleton c
  | malformedExpression => "Malformed expression"

/-- The part of a description that only one kind of fault has. -/
def detail : Fault → String
  | badToken c => "token: " ++ quoteChar c ++ ", "
  | _ => ""

end Fault

/-- The description of a diagnostic in a remark. -/
def Diagnostic.description (d : Diagnostic) : String :=
  d.fault.name ++ " \x7b " ++ d.fault.detail ++ "column: " ++ toString d.column ++ " \x7d"

/-- **The ways a session comes to its end.** -/
inductive Ending where
  /-- The name `exit` was typed. -/
  | exit
  /-- There are no more lines. -/
  | endOfInput
deriving DecidableEq, Repr

/-- The word for an ending. -/
def Ending.name : Ending → String
  | exit => "Exit"
  | endOfInput => "EndOfInput"

/-- **The ways a session breaks down.** -/
inductive FatalError where
  /-- Reading or writing failed. -/
  | stream (reason : String)
  /-- A text that had to be a number is no literal. -/
  | invalidNumber (text : String) (column : Nat)
deriving DecidableEq, Repr

/-- **The message of a fatal error.** -/
def FatalError.message : FatalError → String
  | stream reason => "I/O error: " ++ reason
  | invalidNumber text column =>
    "Column " ++ toString column ++ ": '" ++ text ++ "' is not a valid number."

/-- The reason that another party gave for a fatal error. -/
def FatalError.reason? : FatalError → Option String
  | stream reason => some reason
  | invalidNumber _ _ => none

/-- **Whatever stops a line before it has a value.** -/
inductive Interrupt where
  | failed (d : Diagnostic)
  | ended (ending : Ending)
  | fatal (e : FatalError)
deriving DecidableEq, Repr

end StackCalculator
