import StackCalculator.Number.Magnitude

/-!
# Decimals

A decimal is a whole significand scaled by a power of ten. Each is rounded to its nearest magnitude,
and each finite magnitude is exactly a decimal with `1074` places. Between the two stands the
shortest decimal that is still rounded back to the magnitude: the first one met when the exact value
is cut after one digit, two digits, and so on up to seventeen, and either left there or raised by
one in the last place.

## Main definitions

* `Decimal`: a significand and an exponent of ten
* `Decimal.nearest d`: the magnitude that `d` is rounded to
* `Decimal.ofMagnitude m`: the exact value of `m`
* `Decimal.cuts dropped d`: the neighbours of `d` among the decimals of fewer digits, the nearer
  first
* `Decimal.shortest m`: the shortest decimal that is rounded to `m`
* `Decimal.digits d`: its digits without trailing zeros, and where its point stands

## Main results

* `Decimal.nearest_scale`: zeros behind a significand change nothing
* `Decimal.nearest_ofMagnitude`: the exact value of a finite magnitude is rounded to it
* `Decimal.nearest_shortest`: so is its shortest decimal
-/

namespace StackCalculator

/-- **A decimal**: `significand * 10 ^ exponent`. -/
structure Decimal where
  significand : Nat
  exponent : Int
deriving DecidableEq, Repr

/-- Ten to a power. -/
def tenPow (k : Nat) : Nat := Nat.pow 10 k

theorem tenPow_pos (k : Nat) : 0 < tenPow k := Nat.pow_pos (by decide)

theorem tenPow_add (j k : Nat) : tenPow (j + k) = tenPow j * tenPow k := Nat.pow_add 10 j k

namespace Decimal

/-- The magnitude nearest to a decimal. -/
def nearest (d : Decimal) : Magnitude :=
  match d.exponent with
  | .ofNat e => Magnitude.nearest (d.significand * tenPow e) 1
  | .negSucc e => Magnitude.nearest d.significand (tenPow (e + 1))

/-- The exact value of a finite magnitude: the unit `2 ^ -1074` is `5 ^ 1074` in the last of `1074`
decimal places. -/
def ofMagnitude (m : Magnitude) : Decimal :=
  ⟨m.units * Nat.pow 5 Magnitude.places, -(Magnitude.places : Int)⟩

/-- The number of digits of a significand. -/
def width (n : Nat) : Nat :=
  (Nat.toDigits 10 n).length

/-- **The neighbours of a decimal among those with `dropped` digits less**, the nearer first; of two
equally near ones the larger comes first. -/
def cuts (dropped : Nat) (d : Decimal) : List Decimal :=
  let scale := tenPow dropped
  let below : Decimal := ⟨d.significand / scale, d.exponent + dropped⟩
  let above : Decimal := ⟨d.significand / scale + 1, d.exponent + dropped⟩
  if 2 * (d.significand % scale) < scale then [below, above] else [above, below]

/-- The most digits ever needed to tell a double from its neighbours. -/
def enoughDigits : Nat := 17

/-- The first cut of a decimal that passes a test, the fewest digits first. -/
def firstCut? (d : Decimal) (test : Decimal → Bool) : Option Decimal :=
  let digits := width d.significand
  (List.range enoughDigits).findSome? fun n => (cuts (digits - (n + 1)) d).find? test

/-- **The shortest decimal that is rounded to a magnitude**, and the nearest of those. -/
def shortest (m : Magnitude) : Decimal :=
  (firstCut? (ofMagnitude m) fun d => d.nearest = m).getD (ofMagnitude m)

/-- Digits without trailing zeros. -/
def dropTrailingZeros (digits : List Char) : List Char :=
  (digits.reverse.dropWhile (· = '0')).reverse

/-- **The digits of a decimal and the place of its point**: `(ds, p)` stands for `0.ds * 10 ^ p`,
where `ds` has no zero at its end. Zero keeps its one digit, in front of the point. -/
def digits (d : Decimal) : List Char × Int :=
  if d.significand = 0 then (['0'], 1)
  else (dropTrailingZeros (Nat.toDigits 10 d.significand), width d.significand + d.exponent)

theorem nearest_natCast (s e : Nat) : nearest ⟨s, (e : Int)⟩ = Magnitude.nearest (s * tenPow e) 1 :=
  rfl

theorem nearest_neg (s e : Nat) : nearest ⟨s, -(e : Int)⟩ = Magnitude.nearest s (tenPow e) := by
  cases e with
  | zero => simp [nearest, tenPow]
  | succ e => rfl

/-- **Zeros behind a significand change nothing.** -/
theorem nearest_scale (s k : Nat) (e : Int) : nearest ⟨s * tenPow k, e - k⟩ = nearest ⟨s, e⟩ := by
  rcases Int.eq_nat_or_neg e with ⟨n, rfl | rfl⟩
  · by_cases h : k ≤ n
    · rw [show (n : Int) - k = ((n - k : Nat) : Int) by omega, nearest_natCast, nearest_natCast,
        Nat.mul_assoc, ← tenPow_add, show k + (n - k) = n by omega]
    · rw [show (n : Int) - k = -((k - n : Nat) : Int) by omega, nearest_neg, nearest_natCast,
        ← Magnitude.nearest_mul (s * tenPow n) 1 (tenPow_pos (k - n)), Nat.mul_assoc, ← tenPow_add,
        show n + (k - n) = k by omega, Nat.one_mul]
  · rw [show -(n : Int) - k = -((n + k : Nat) : Int) by omega, nearest_neg, nearest_neg, tenPow_add,
      Magnitude.nearest_mul s (tenPow n) (tenPow_pos k)]

/-- A significand taken `5 ^ p` times, with `p` decimal places, is a quotient by `2 ^ p`. -/
theorem nearest_mul_five_pow (s p : Nat) :
    nearest ⟨s * Nat.pow 5 p, -(p : Int)⟩ = Magnitude.nearest s (1 <<< p) := by
  have h : tenPow p = (1 <<< p) * Nat.pow 5 p := by
    rw [Nat.shiftLeft_eq, Nat.one_mul]
    exact Nat.mul_pow 2 5 p
  have h5 : 0 < Nat.pow 5 p := Nat.pow_pos (by decide)
  rw [nearest_neg, h, Magnitude.nearest_mul _ _ h5]

/-- **The exact value of a finite magnitude is rounded to it.** -/
theorem nearest_ofMagnitude {m : Magnitude} (h : m.rank < infinityRank) :
    (ofMagnitude m).nearest = m :=
  (nearest_mul_five_pow m.units Magnitude.places).trans (Magnitude.nearest_units h)

theorem test_of_firstCut? {d c : Decimal} {test : Decimal → Bool} (h : firstCut? d test = some c) :
    test c = true := by
  obtain ⟨n, -, hn⟩ := List.exists_of_findSome?_eq_some h
  exact List.find?_some hn

/-- **The shortest decimal of a finite magnitude is rounded to it.** -/
theorem nearest_shortest {m : Magnitude} (h : m.rank < infinityRank) :
    (shortest m).nearest = m := by
  rw [shortest]
  cases hc : firstCut? (ofMagnitude m) fun d => d.nearest = m with
  | none => exact nearest_ofMagnitude h
  | some c => exact of_decide_eq_true (test_of_firstCut? hc)

end Decimal

end StackCalculator
