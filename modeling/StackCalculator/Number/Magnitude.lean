/-!
# Magnitudes

A magnitude is the absolute value of a double, infinity included. The doubles from zero upwards are
numbered by their bit patterns, so a magnitude is its place in that order: the next place is the
next larger double, and infinity has the last place. Each finite magnitude is a whole number of the
smallest positive double, `2 ^ -1074`, and is compared and rounded in that unit, exactly.

## Main definitions

* `Magnitude`: a place in the order of the doubles from zero upwards
* `Magnitude.units m`: the value of `m`, in units of `2 ^ -1074`
* `Magnitude.nearest num den`: the magnitude nearest to a quotient, a tie going to the even place
* `Magnitude.toFloat`, `Magnitude.ofFloat?`: to and from a double

## Main results

* `Magnitude.nearest_mul`: rounding depends on the quotient alone
* `Magnitude.nearest_units`: a finite magnitude is nearest to its own value
-/

namespace StackCalculator

/-- The number of doubles that share a sign and an exponent, `2 ^ 52`. -/
def binade : Nat := 0x10000000000000

/-- The place of infinity: above all `2047` exponents. -/
def infinityRank : Nat := 0x7ff0000000000000

/-- The bit pattern of minus zero. -/
def signBit : Nat := 0x8000000000000000

/-- **The absolute value of a double**, by its place in increasing order. -/
structure Magnitude where
  rank : Nat
  rank_le : rank ≤ infinityRank
deriving DecidableEq

namespace Magnitude

/-- The binary places of the smallest positive double. -/
def places : Nat := 1074

/-- One, in units of `2 ^ -1074`. -/
def one : Nat := 1 <<< places

/-- Past every finite magnitude. -/
def infinity : Magnitude := ⟨infinityRank, Nat.le_refl _⟩

/-- **The exact value**, in units of `2 ^ -1074`: in the first binade every place is one unit more,
and so it is in the second; from then on the gap doubles from binade to binade. -/
def units (m : Magnitude) : Nat :=
  if m.rank < binade then m.rank
  else (binade + m.rank % binade) <<< (m.rank / binade - 1)

/-- The number of doublings of the gap at a value of `whole` units. -/
def gapShift (whole : Nat) : Nat :=
  whole.log2 - 52

/-- The place nearest to `scaled / den` units, were the exponents to go on for ever. The places of
one binade run on into those of the next, so rounding up is one place more everywhere. -/
def nearestRank (scaled den : Nat) : Nat :=
  let shift := gapShift (scaled / den)
  let gap := den <<< shift
  let below := scaled / gap
  let rest := scaled % gap
  let up := gap < 2 * rest || (gap = 2 * rest && below % 2 = 1)
  shift * binade + below + up.toNat

/-- **The magnitude nearest to `num / den`**, the even place of two equally near ones. What lies
halfway past the largest finite magnitude or beyond is infinite. -/
def nearest (num den : Nat) : Magnitude :=
  ⟨min (nearestRank (num * one) den) infinityRank, Nat.min_le_right _ _⟩

/-- The double of a magnitude and a sign. -/
def toFloat (m : Magnitude) (negative : Bool) : Float :=
  Float.ofBits (UInt64.ofNat (m.rank + if negative then signBit else 0))

/-- The magnitude of a double, unless it is not a number. -/
def ofFloat? (x : Float) : Option Magnitude :=
  if h : x.toBits.toNat % signBit ≤ infinityRank then some ⟨x.toBits.toNat % signBit, h⟩ else none

theorem one_pos : 0 < one := by
  rw [one, Nat.shiftLeft_eq, Nat.one_mul]
  exact Nat.two_pow_pos places

theorem nearestRank_mul (scaled den : Nat) {k : Nat} (hk : 0 < k) :
    nearestRank (scaled * k) (den * k) = nearestRank scaled den := by
  have hg : ∀ s, (den * k) <<< s = den <<< s * k := fun s => by
    simp only [Nat.shiftLeft_eq]
    exact Nat.mul_right_comm _ _ _
  have h1 : ∀ a b, (a * k < 2 * (b * k)) = (a < 2 * b) := fun a b => by
    rw [← Nat.mul_assoc]; exact propext (Nat.mul_lt_mul_right hk)
  have h2 : ∀ a b, (a * k = 2 * (b * k)) = (a = 2 * b) := fun a b => by
    rw [← Nat.mul_assoc]; exact propext (Nat.mul_left_inj (Nat.ne_of_gt hk))
  simp only [nearestRank, Nat.mul_div_mul_right _ _ hk, hg, Nat.mul_mod_mul_right, h1, h2]

/-- **Rounding depends on the quotient alone.** -/
theorem nearest_mul (num den : Nat) {k : Nat} (hk : 0 < k) :
    nearest (num * k) (den * k) = nearest num den := by
  simp only [nearest, Nat.mul_right_comm num k one, nearestRank_mul _ _ hk]

theorem gapShift_shiftLeft {sig shift : Nat} (hs : sig < 2 * binade)
    (hn : binade ≤ sig ∨ shift = 0) : gapShift (sig <<< shift) = shift := by
  rcases hn with hn | rfl
  · have hp := Nat.two_pow_pos shift
    have hpos : 0 < sig := Nat.lt_of_lt_of_le (by decide) hn
    have hlog : (sig <<< shift).log2 = 52 + shift := by
      rw [Nat.shiftLeft_eq]
      refine (Nat.log2_eq_iff (Nat.ne_of_gt (Nat.mul_pos hpos hp))).mpr ⟨?_, ?_⟩
      · rw [Nat.pow_add]
        exact Nat.mul_le_mul_right _ hn
      · rw [show 52 + shift + 1 = 53 + shift by omega, Nat.pow_add]
        exact Nat.mul_lt_mul_of_pos_right hs hp
    rw [gapShift, hlog]
    omega
  · rw [gapShift, Nat.shiftLeft_zero]
    by_cases h0 : sig = 0
    · subst h0
      decide
    · have : sig.log2 < 53 := (Nat.log2_lt h0).mpr hs
      omega

/-- A whole multiple of its own gap is at its own place. -/
theorem nearestRank_shiftLeft {sig shift den : Nat} (hs : sig < 2 * binade)
    (hn : binade ≤ sig ∨ shift = 0) (hd : 0 < den) :
    nearestRank (sig <<< shift * den) den = shift * binade + sig := by
  have hgap : 0 < den <<< shift := by
    rw [Nat.shiftLeft_eq]
    exact Nat.mul_pos hd (Nat.two_pow_pos shift)
  have hm : sig <<< shift * den = sig * den <<< shift := by
    simp only [Nat.shiftLeft_eq, Nat.mul_assoc, Nat.mul_comm den]
  have hrest : sig <<< shift * den % den <<< shift = 0 := by
    rw [hm]; exact Nat.mul_mod_left _ _
  have hbelow : sig <<< shift * den / den <<< shift = sig := by
    rw [hm]; exact Nat.mul_div_cancel _ hgap
  have h1 : ¬ den <<< shift < 2 * 0 := by omega
  have h2 : ¬ den <<< shift = 2 * 0 := by omega
  simp only [nearestRank, Nat.mul_div_cancel _ hd, gapShift_shiftLeft hs hn, hrest, hbelow,
    decide_eq_false h1, decide_eq_false h2, Bool.false_and, Bool.or_false, Bool.toNat_false,
    Nat.add_zero]

theorem ext_rank {m n : Magnitude} (h : m.rank = n.rank) : m = n := by
  cases m; cases n; simp_all

theorem nearestRank_units (m : Magnitude) : nearestRank (m.units * one) one = m.rank := by
  have hb : 0 < binade := by decide
  have hmod := Nat.mod_lt m.rank hb
  have hdiv := Nat.div_add_mod' m.rank binade
  unfold units
  split
  · next hr =>
    have h := @nearestRank_shiftLeft m.rank 0 one (by omega) (.inr rfl) one_pos
    simpa using h
  · next hr =>
    have hq : 0 < m.rank / binade := Nat.div_pos (by omega) hb
    rw [nearestRank_shiftLeft (by omega) (.inl (by omega)) one_pos, ← Nat.add_assoc, ← Nat.succ_mul,
      Nat.succ_eq_add_one, Nat.sub_add_cancel hq, hdiv]

/-- **A finite magnitude is nearest to its own value.** -/
theorem nearest_units {m : Magnitude} (h : m.rank < infinityRank) : nearest m.units one = m := by
  apply ext_rank
  simp only [nearest, nearestRank_units]
  omega

end Magnitude

end StackCalculator
