import StackCalculator.Text.Combining
import StackCalculator.Text.Unprintable

/-!
# Quoted text

A text or a character between quotes, written so that every character of it can be seen: the usual
letters for tab, line ends, backslash, NUL and the enclosing quote, and the scalar value in
hexadecimal for whatever combines with its neighbour or leaves no mark.

## Main definitions

* `escape quote c`: one character inside the given quotes
* `quoteText`, `quoteChar`: a text in double quotes, a character in single quotes
-/

namespace StackCalculator

/-- A scalar value in lower case hexadecimal, without padding: `\u\x7b7f\x7d`. -/
def escapeScalar (c : Char) : List Char :=
  ['\\', 'u', '\x7b'] ++ Nat.toDigits 16 c.toNat ++ ['\x7d']

/-- **One character inside quotes.** A quote other than the enclosing one stands for itself. -/
def escape (quote c : Char) : List Char :=
  match c with
  | '\x00' => ['\\', '0']
  | '\t' => ['\\', 't']
  | '\r' => ['\\', 'r']
  | '\n' => ['\\', 'n']
  | '\\' => ['\\', '\\']
  | c =>
    if c = quote then ['\\', c]
    else if ' ' ≤ c ∧ c ≤ '~' then [c]
    else if isCombining c || isUnprintable c then escapeScalar c
    else [c]

/-- A text in double quotes. -/
def quoteText (s : String) : String :=
  String.ofList ('"' :: s.toList.flatMap (escape '"') ++ ['"'])

/-- A character in single quotes. -/
def quoteChar (c : Char) : String :=
  String.ofList ('\'' :: escape '\'' c ++ ['\''])

end StackCalculator
