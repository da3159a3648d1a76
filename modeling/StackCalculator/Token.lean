import StackCalculator.Operator
import StackCalculator.Text.Quoted

/-!
# Tokens

A text is cut into tokens by longest match. A number is a digit with the digits and points that
follow, however many points there are; a name is a letter or underscore with the letters, digits and
underscores that follow; an operator is one character. Spaces and tabs separate tokens and are
dropped. Any other character is a token by itself, which no line accepts.

## Main definitions

* `Token`: the tokens of a line, its end included
* `Token.first cs`: the token at the head of a text without leading blanks
* `Token.written t`: the characters of a token
* `lexemes width start cs`: the tokens of a text with their spans

## Main results

* `Token.written_first_append`: the first token stands at the head of its text
* `Token.written_first_ne_nil`: it is not empty, unless the text is
-/

namespace StackCalculator

/-- **The tokens of a line.** Numbers keep their text until it is needed as a value. -/
inductive Token where
  | number (text : String)
  | identifier (text : String)
  | operator (op : Operator)
  | invalid (c : Char)
  | endOfLine
deriving DecidableEq, Repr

/-- The characters that separate tokens. -/
def isBlank (c : Char) : Bool :=
  c = ' ' || c = '\t'

/-- The characters a number goes on with. -/
def isNumberPart (c : Char) : Bool :=
  c.isDigit || c = '.'

/-- The characters a name begins with. -/
def isNameStart (c : Char) : Bool :=
  c.isAlpha || c = '_'

/-- The characters a name goes on with. -/
def isNamePart (c : Char) : Bool :=
  c.isAlphanum || c = '_'

namespace Token

/-- **The token at the head of a text** that does not begin with a blank. -/
def first : List Char → Token
  | [] => .endOfLine
  | c :: cs =>
    if c.isDigit then .number (String.ofList (c :: cs.takeWhile isNumberPart))
    else if isNameStart c then .identifier (String.ofList (c :: cs.takeWhile isNamePart))
    else match Operator.ofSymbol? c with
      | some op => .operator op
      | none => .invalid c

/-- The characters of a token. -/
def written : Token → List Char
  | .number text => text.toList
  | .identifier text => text.toList
  | .operator op => [op.symbol]
  | .invalid c => [c]
  | .endOfLine => []

/-- The description of a token in a remark. -/
def description : Token → String
  | .number text => "Number(" ++ quoteText text ++ ")"
  | .identifier text => "Identifier(" ++ quoteText text ++ ")"
  | .operator op => "Operator(" ++ op.description ++ ")"
  | .invalid c => "Invalid(" ++ quoteChar c ++ ")"
  | .endOfLine => "EndOfLine"

@[simp]
theorem first_nil : first [] = .endOfLine := rfl

/-- **The first token stands at the head of its text.** -/
theorem written_first_append (cs : List Char) :
    (first cs).written ++ cs.drop (first cs).written.length = cs := by
  cases cs with
  | nil => rfl
  | cons c cs =>
    have hcut : ∀ p, cs.takeWhile p ++ cs.drop (cs.takeWhile p).length = cs := fun p =>
      List.prefix_iff_eq_append.mp (List.takeWhile_prefix p)
    simp only [first]
    split
    · simp [written, hcut]
    · split
      · simp [written, hcut]
      · cases hop : Operator.ofSymbol? c with
        | none => rfl
        | some op => simp [written, Operator.ofSymbol?_eq_some_iff.mp hop]

/-- **The first token is not empty**, unless the text is. -/
theorem written_first_ne_nil {cs : List Char} (h : cs ≠ []) : (first cs).written ≠ [] := by
  cases cs with
  | nil => exact absurd rfl h
  | cons c cs =>
    simp only [first]
    split
    · simp [written]
    · split
      · simp [written]
      · cases Operator.ofSymbol? c <;> simp [written]

theorem written_first_length_le (cs : List Char) : (first cs).written.length ≤ cs.length := by
  have h := congrArg List.length (written_first_append cs)
  simp only [List.length_append] at h
  omega

/-- What stands behind the blanks and the first token is shorter than the text. -/
theorem length_drop_first_lt {cs : List Char} (h : cs.dropWhile isBlank ≠ []) :
    ((cs.dropWhile isBlank).drop (first (cs.dropWhile isBlank)).written.length).length <
      cs.length := by
  have hrest : (cs.dropWhile isBlank).length ≤ cs.length :=
    (List.dropWhile_sublist isBlank).length_le
  have hwritten := List.length_pos_iff.mpr (written_first_ne_nil h)
  have hpos := List.length_pos_iff.mpr h
  rw [List.length_drop]
  omega

theorem first_eq_endOfLine_iff {cs : List Char} : first cs = .endOfLine ↔ cs = [] := by
  refine ⟨fun h => ?_, fun h => h ▸ rfl⟩
  by_cases hn : cs = []
  · exact hn
  · exact absurd (by rw [h]; rfl) (written_first_ne_nil hn)

end Token

/-- **A token and where it stands**: its start and the position behind it. -/
structure Lexeme where
  token : Token
  start : Nat
  stop : Nat
deriving DecidableEq, Repr

/-- The extent of a text, each character counted by its width. -/
def extent (width : Char → Nat) (cs : List Char) : Nat :=
  cs.foldl (fun n c => n + width c) 0

/-- **The tokens of a text** that begins at the position `start`, without an end of line. Positions
count each character by its width. -/
def lexemes (width : Char → Nat) (start : Nat) (cs : List Char) : List Lexeme :=
  let rest := cs.dropWhile isBlank
  if _ : rest = [] then []
  else
    let token := Token.first rest
    let begin := start + extent width (cs.takeWhile isBlank)
    let stop := begin + extent width token.written
    ⟨token, begin, stop⟩ :: lexemes width stop (rest.drop token.written.length)
termination_by cs.length
decreasing_by exact Token.length_drop_first_lt ‹_›

end StackCalculator
