/-!
# Operators

The operators of a line, each written as one character.

## Main definitions

* `BinaryOperator`, `Operator`: the operators
* `Operator.symbol`, `Operator.ofSymbol?`: the character an operator is written as, and back

## Main results

* `Operator.ofSymbol?_eq_some_iff`: a character is read as the operator it is written for
-/

namespace StackCalculator

/-- The operators that combine the two topmost values. -/
inductive BinaryOperator where
  | add
  | subtract
  | multiply
  | divide
deriving DecidableEq, Repr

/-- **The operators of a line.** -/
inductive Operator where
  | binary (op : BinaryOperator)
  | negate
  | assign
deriving DecidableEq, Repr

/-- The character a binary operator is written as. -/
def BinaryOperator.symbol : BinaryOperator → Char
  | .add => '+'
  | .subtract => '-'
  | .multiply => '*'
  | .divide => '/'

/-- The word for a binary operator. -/
def BinaryOperator.name : BinaryOperator → String
  | .add => "Add"
  | .subtract => "Subtract"
  | .multiply => "Multiply"
  | .divide => "Divide"

namespace Operator

/-- The character an operator is written as. -/
def symbol : Operator → Char
  | .binary op => op.symbol
  | .negate => '~'
  | .assign => '='

/-- The operator that a character is written for. -/
def ofSymbol? : Char → Option Operator
  | '+' => some (.binary .add)
  | '-' => some (.binary .subtract)
  | '*' => some (.binary .multiply)
  | '/' => some (.binary .divide)
  | '~' => some .negate
  | '=' => some .assign
  | _ => none

/-- The description of an operator in a remark. -/
def description : Operator → String
  | .binary op => "Binary(" ++ op.name ++ ")"
  | .negate => "UnaryMinus"
  | .assign => "Assign"

@[simp]
theorem ofSymbol?_symbol (op : Operator) : ofSymbol? op.symbol = some op := by
  rcases op with (_ | _ | _ | _) | _ | _ <;> rfl

/-- **A character is read as the operator it is written for.** -/
theorem ofSymbol?_eq_some_iff {c : Char} {op : Operator} :
    ofSymbol? c = some op ↔ c = op.symbol := by
  refine ⟨fun h => ?_, fun h => h ▸ ofSymbol?_symbol op⟩
  unfold ofSymbol? at h
  split at h <;> cases h <;> rfl

end Operator

end StackCalculator
