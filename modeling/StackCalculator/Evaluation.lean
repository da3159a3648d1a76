import StackCalculator.Journal
import StackCalculator.Number.Literal
import StackCalculator.SymbolTable

/-!
# Evaluation of a line

A line is evaluated token by token on a stack of values. Numbers and names push a value, operators
replace the topmost values by their result, and `=` drops the topmost value and waits for the text
that comes next: read as a number, it is stored under the name read last, pushed, and from then on
it names the target under which the value of the line is stored. A line has a value if it leaves
exactly one on the stack.

## Main definitions

* `BinaryOperator.apply`: arithmetic on two values
* `Evaluation`: what is known in the middle of a line
* `Evaluation.Progress`, `Evaluation.feed`: one token more

## Main results

* `Evaluation.ne_endOfLine_of_next`: the end of a line ends its evaluation
-/

namespace StackCalculator

/-- **Arithmetic.** A zero of either sign divides nothing. -/
def BinaryOperator.apply (op : BinaryOperator) (left right : Float) : Except Fault Float :=
  match op with
  | add => .ok (left + right)
  | subtract => .ok (left - right)
  | multiply => .ok (left * right)
  | divide => if right == 0 then .error .divisionByZero else .ok (left / right)

/-- The value of a text that has to be a number. -/
def Literal.value (text : String) (column : Nat) : Except FatalError Float :=
  match Literal.read? text with
  | some x => .ok x
  | none => .error (.invalidNumber text column)

/-- The name that ends the session. -/
def exitName : String := "exit"

/-- The target of a line without an assignment. -/
def defaultTarget : String := "it"

/-- **What is known in the middle of a line.** -/
structure Evaluation where
  /-- The values of all names. -/
  symbols : SymbolTable
  /-- The values pushed and not yet used, the topmost first. -/
  stack : List Float
  /-- The last token that belongs to no assignment was an operator. Neither `=` nor the text behind
  it counts. -/
  afterOperator : Bool
  /-- The name read last on this line, empty if there is none. -/
  lastName : String
  /-- The name under which the value of the line will be stored. -/
  target : String
  /-- The last token was `=`. -/
  assigning : Bool

namespace Evaluation

/-- The beginning of a line. -/
def start (symbols : SymbolTable) : Evaluation :=
  ⟨symbols, [], false, "", defaultTarget, false⟩

/-- **What a token leads to**: more of the line, its value, or an interrupt. An interrupt leaves the
values of all names as they were before the token. -/
inductive Progress where
  | next (e : Evaluation) (remark? : Option Remark)
  | done (value : Float) (symbols : SymbolTable) (remark : Remark)
  | stopped (i : Interrupt)

/-- The line fails at a column. -/
def fail (fault : Fault) (column : Nat) : Progress :=
  .stopped (.failed ⟨fault, column⟩)

/-- The value of an operand is pushed. -/
def push (e : Evaluation) (x : Float) : Evaluation :=
  { e with stack := x :: e.stack, afterOperator := false }

/-- A number, which may not come behind an operator, also not with assignments in between. -/
def feedNumber (e : Evaluation) (text : String) (column : Nat) : Progress :=
  if e.afterOperator then fail .operandAfterOperator column
  else match Literal.value text column with
    | .ok x => .next (e.push x) none
    | .error err => .stopped (.fatal err)

/-- A name, which may not come behind an operator, also not with assignments in between. -/
def feedName (e : Evaluation) (name : String) (column : Nat) : Progress :=
  if e.afterOperator then fail .operandAfterOperator column
  else if name = exitName then .stopped (.ended .exit)
  else
    let e' := { e with symbols := e.symbols.read name, lastName := name }
    .next (e'.push (e.symbols.value name)) none

/-- Negation of the topmost value. -/
def feedNegate (e : Evaluation) (column : Nat) : Progress :=
  match e.stack with
  | x :: stack => .next { e with stack := -x :: stack, afterOperator := true } none
  | [] => fail .missingOperand column

/-- An operator on the two topmost values, of which the topmost stands on its right. -/
def feedBinary (e : Evaluation) (op : BinaryOperator) (column : Nat) : Progress :=
  match e.stack with
  | right :: left :: stack =>
    match op.apply left right with
    | .ok x =>
      .next { e with stack := x :: stack, afterOperator := true } (some (.combined op left right x))
    | .error fault => fail fault column
  | _ => fail .insufficientOperands column

/-- `=`, which drops the topmost value. -/
def feedAssign (e : Evaluation) (column : Nat) : Progress :=
  match e.stack with
  | _ :: stack => .next { e with stack, assigning := true } none
  | [] => fail .noValueToAssign column

/-- The text behind `=`. The name of a variable counts as text, and never as its value. -/
def feedTarget (e : Evaluation) (text : String) (column : Nat) : Progress :=
  match Literal.value text column with
  | .ok x =>
    .next { e with
      symbols := e.symbols.insert e.lastName x, stack := x :: e.stack, target := text,
      assigning := false } (some (.assigned e.lastName x text))
  | .error err => .stopped (.fatal err)

/-- The end of the line, which has the value left on the stack, if it is the only one. -/
def finish (e : Evaluation) (column : Nat) : Progress :=
  match e.stack with
  | [x] => .done x (e.symbols.insert e.target x) (.stored e.target x)
  | _ => fail .malformedExpression column

/-- **One token more.** -/
def feed (e : Evaluation) (t : Token) (column : Nat) : Progress :=
  if e.assigning then
    match t with
    | .number text | .identifier text => e.feedTarget text column
    | _ => fail .expectedVariableAfterAssign column
  else
    match t with
    | .number text => e.feedNumber text column
    | .identifier name => e.feedName name column
    | .operator .negate => e.feedNegate column
    | .operator (.binary op) => e.feedBinary op column
    | .operator .assign => e.feedAssign column
    | .invalid c => fail (.badToken c) column
    | .endOfLine => e.finish column

/-- **The end of a line ends its evaluation.** -/
theorem ne_endOfLine_of_next {e e' : Evaluation} {t : Token} {column : Nat}
    {remark? : Option Remark} (h : e.feed t column = .next e' remark?) : t ≠ .endOfLine := by
  rintro rfl
  simp only [feed, finish, fail] at h
  split at h
  · cases h
  · split at h <;> cases h

/-- Only the end of a line gives it its value. -/
theorem eq_endOfLine_of_done {e : Evaluation} {t : Token} {column : Nat} {x : Float}
    {symbols : SymbolTable} {remark : Remark} (h : e.feed t column = .done x symbols remark) :
    t = .endOfLine := by
  simp only [feed, feedTarget, feedNumber, feedName, feedNegate, feedBinary, feedAssign, fail] at h
  repeat' split at h
  all_goals first | rfl | cases h

end Evaluation

end StackCalculator
