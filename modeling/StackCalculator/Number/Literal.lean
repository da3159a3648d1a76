import StackCalculator.Number.Decimal

/-!
# Number literals

A literal is an optional sign followed by `inf`, `infinity` or `nan` in any letter case, or by
decimal digits with at most one point among them and an optional exponent. At least one digit stands
before or behind the point. Its value is the double nearest to the decimal it spells, a tie going to
the even one.

## Main definitions

* `Literal.decimal?`: the decimal that unsigned digits spell
* `Literal.read?`: the double that a text spells
-/

namespace StackCalculator.Literal

/-- A leading sign, and what follows it; no sign counts as plus. -/
def splitSign : List Char → Bool × List Char
  | '-' :: cs => (true, cs)
  | '+' :: cs => (false, cs)
  | cs => (false, cs)

/-- An exponent reads no more digits once it has passed `65536`, where every value is zero or
infinite unless thousands of digits make up for it. -/
def exponentValue (ds : List Char) : Nat :=
  ds.foldl (fun e c => if e < 65536 then 10 * e + (c.toNat - '0'.toNat) else e) 0

/-- The exponent that follows the digits, zero if nothing does. -/
def exponent? : List Char → Option Int
  | [] => some 0
  | c :: cs =>
    let (negative, ds) := splitSign cs
    if (c = 'e' ∨ c = 'E') ∧ ds ≠ [] ∧ ds.all Char.isDigit then
      some (if negative then -(exponentValue ds : Int) else exponentValue ds)
    else none

/-- The digits behind a point, and what follows them. -/
def fraction : List Char → List Char × List Char
  | '.' :: cs => (cs.takeWhile Char.isDigit, cs.dropWhile Char.isDigit)
  | cs => ([], cs)

/-- **The decimal that unsigned digits spell.** -/
def decimal? (cs : List Char) : Option Decimal :=
  let whole := cs.takeWhile Char.isDigit
  let (places, rest) := fraction (cs.dropWhile Char.isDigit)
  if whole ++ places = [] then none
  else (exponent? rest).map fun e => ⟨Nat.ofDigitChars 10 (whole ++ places) 0, e - places.length⟩

/-- What is not a number. -/
def nan : Float := Float.ofBits 0x7ff8000000000000

/-- **The double that a text spells**, if it is a literal. -/
def read? (text : String) : Option Float :=
  let (negative, body) := splitSign text.toList
  match decimal? body with
  | some d => some (d.nearest.toFloat negative)
  | none =>
    let word := body.map Char.toLower
    if word = "inf".toList ∨ word = "infinity".toList then
      some (Magnitude.infinity.toFloat negative)
    else if word = "nan".toList then some nan
    else none

end StackCalculator.Literal
