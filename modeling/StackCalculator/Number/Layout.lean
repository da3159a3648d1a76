import StackCalculator.Number.Decimal

/-!
# Layouts of a number

A double is written with the digits of its shortest decimal. A layout decides the rest: which values
are written with an exponent instead of in positional form, and whether a whole value in positional
form keeps a zero behind its point.

## Main definitions

* `Layout`: the decisions of a way to write numbers
* `Layout.answer`, `Layout.plain`: how answers and how remarks write them
* `Layout.write l x`: the text of a double
-/

namespace StackCalculator

/-- **A way to write numbers.** -/
structure Layout where
  /-- Whether an absolute value is written without an exponent. -/
  positional : Float → Bool
  /-- What follows a whole value in positional form. -/
  wholeMark : List Char

namespace Layout

/-- Answers show that they are numbers with a fraction, `7.0`, and use an exponent from `1e16` on
and, zero apart, below `1e-4`. -/
def answer : Layout :=
  ⟨fun x => x == 0 || (1e-4 ≤ x && x < 1e16), ['.', '0']⟩

/-- Remarks write every number in positional form, whole ones without a point. -/
def plain : Layout :=
  ⟨fun _ => true, []⟩

/-- **Positional form** of the digits `ds` with the point at place `p`. -/
def writePositional (l : Layout) (ds : List Char) (p : Int) : List Char :=
  if p ≤ 0 then ['0', '.'] ++ List.replicate (-p).toNat '0' ++ ds
  else if ds.length ≤ p.toNat then ds ++ List.replicate (p.toNat - ds.length) '0' ++ l.wholeMark
  else ds.take p.toNat ++ '.' :: ds.drop p.toNat

/-- **Form with an exponent**: one digit before the point, which is left out when nothing follows
it. -/
def writeScientific (ds : List Char) (p : Int) : List Char :=
  let fraction := if ds.length ≤ 1 then [] else '.' :: ds.drop 1
  let sign := if p - 1 < 0 then ['-'] else []
  ds.take 1 ++ fraction ++ 'e' :: sign ++ Nat.toDigits 10 (p - 1).natAbs

/-- The text of an absolute value. -/
def writeMagnitude (l : Layout) (m : Magnitude) : List Char :=
  if m = Magnitude.infinity then "inf".toList
  else
    let (ds, p) := (Decimal.shortest m).digits
    if l.positional (m.toFloat false) then l.writePositional ds p else writeScientific ds p

/-- The sign bit of a double is set. -/
def isNegative (x : Float) : Bool :=
  signBit ≤ x.toBits.toNat

/-- **The text of a double.** What is not a number has no sign. -/
def write (l : Layout) (x : Float) : String :=
  match Magnitude.ofFloat? x with
  | none => "NaN"
  | some m => String.ofList ((if isNegative x then ['-'] else []) ++ l.writeMagnitude m)

end Layout

end StackCalculator
