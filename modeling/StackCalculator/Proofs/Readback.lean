import Mathlib.Data.List.DropRight
import StackCalculator.Proofs.Answers
import StackCalculator.Proofs.BitPatterns
import StackCalculator.Proofs.Shapes

/-!
# Reading answers back

An answer that is written without an exponent can be typed as a line. Its digits and its one point
are a number for the tokens of a line and for the literals alike, and the decimal that they spell is
rounded to the magnitude that they were written for: zeros are put before or behind the shortest
decimal, and a point between its digits, which moves no digit from its place. Since a line has no
signs, a negative value is typed as its absolute value with `~` behind it.

## Main definitions

* `Decimal.ofDigits ds p`: the decimal that some digits spell with the point at a place
* `Positional whole places m`: digits before and behind a point that spell a decimal rounded to `m`
* `InPositionalRange x`: a double that answers write without an exponent
* `typedLine x`: the line that is typed for a double

## Main results

* `Layout.exists_positional_write`: what answers write without an exponent is in positional form
* `Positional.read?`: a literal in positional form is read as its magnitude
* `Session.lineValue_typedLine`: the line typed for a double has that double as its value
-/

namespace StackCalculator

/-! ## Digits and points -/

namespace Decimal

/-- **The decimal that some digits spell**, `0.ds * 10 ^ p`. -/
def ofDigits (ds : List Char) (p : Int) : Decimal :=
  ⟨Nat.ofDigitChars 10 ds 0, p - ds.length⟩

/-- The exponent of zero does not matter. -/
theorem nearest_zero (e : Int) : nearest ⟨0, e⟩ = nearest ⟨0, 0⟩ := by
  rcases Int.eq_nat_or_neg e with ⟨n, rfl | rfl⟩
  · have h := nearest_scale 0 n n
    rw [Nat.zero_mul, Int.sub_self] at h
    exact h.symm
  · have h := nearest_scale 0 n 0
    rwa [Nat.zero_mul, Int.zero_sub] at h

/-- Zeros behind the digits change nothing. -/
theorem nearest_ofDigits_append_zeros (ds : List Char) (k : Nat) (p : Int) :
    (ofDigits (ds ++ List.replicate k '0') p).nearest = (ofDigits ds p).nearest := by
  have hdigits : Nat.ofDigitChars 10 (ds ++ List.replicate k '0') 0
      = Nat.ofDigitChars 10 ds 0 * tenPow k := by
    rw [Nat.ofDigitChars_append, Nat.ofDigitChars_replicate_zero, Nat.mul_comm]
    rfl
  have hplaces : p - ((ds ++ List.replicate k '0').length : Int) = p - ds.length - k := by
    rw [List.length_append, List.length_replicate]
    omega
  rw [ofDigits, hdigits, hplaces, nearest_scale, ofDigits]

/-- Zeros before the digits move the point. -/
theorem ofDigits_zeros_append (k : Nat) (ds : List Char) (p : Int) :
    ofDigits (List.replicate k '0' ++ ds) (p + k) = ofDigits ds p := by
  have hdigits : Nat.ofDigitChars 10 (List.replicate k '0' ++ ds) 0 = Nat.ofDigitChars 10 ds 0 := by
    rw [Nat.ofDigitChars_append, Nat.ofDigitChars_replicate_zero, Nat.mul_zero]
  have hplaces : p + k - ((List.replicate k '0' ++ ds).length : Int) = p - ds.length := by
    rw [List.length_append, List.length_replicate]
    omega
  rw [ofDigits, hdigits, hplaces, ofDigits]

/-- Only zeros are dropped behind the digits. -/
theorem exists_append_zeros (ds : List Char) :
    ∃ k, dropTrailingZeros ds ++ List.replicate k '0' = ds := by
  refine ⟨(ds.rtakeWhile (· = '0')).length, ?_⟩
  have hzeros : ∀ c ∈ ds.rtakeWhile (· = '0'), c = '0' :=
    fun c hc => by simpa using List.mem_rtakeWhile_imp hc
  rw [← List.eq_replicate_of_mem hzeros]
  exact List.rdropWhile_append_rtakeWhile

variable (d : Decimal)

/-- **The digits of a decimal spell it**, as far as rounding goes. -/
theorem nearest_ofDigits_digits : (ofDigits d.digits.1 d.digits.2).nearest = d.nearest := by
  obtain ⟨n, e⟩ := d
  unfold digits
  split
  · next h0 =>
    obtain rfl : n = 0 := h0
    exact (nearest_zero e).symm
  · obtain ⟨k, hk⟩ := exists_append_zeros (Nat.toDigits 10 n)
    have hplace : width n + e - ((Nat.toDigits 10 n).length : Int) = e := by
      rw [width]
      omega
    dsimp only
    rw [← nearest_ofDigits_append_zeros _ k, hk, ofDigits, Nat.ofDigitChars_ten_toDigits, hplace]

theorem isDigit_of_mem_digits : ∀ c ∈ d.digits.1, c.isDigit = true := by
  unfold digits
  split
  · simp
  · intro c hc
    have hmem : c ∈ Nat.toDigits 10 d.significand := (List.rdropWhile_prefix _ _).subset hc
    exact Nat.isDigit_of_mem_toDigits (by decide) (by decide) hmem

theorem digits_ne_nil : d.digits.1 ≠ [] := by
  unfold digits
  split
  · simp
  · next h0 =>
    intro hnil
    obtain ⟨k, hk⟩ := exists_append_zeros (Nat.toDigits 10 d.significand)
    rw [show dropTrailingZeros _ = [] from hnil, List.nil_append] at hk
    apply h0
    calc d.significand
        = Nat.ofDigitChars 10 (List.replicate k '0') 0 := by rw [hk, Nat.ofDigitChars_ten_toDigits]
      _ = 0 := by rw [Nat.ofDigitChars_replicate_zero, Nat.mul_zero]

end Decimal

/-- **Digits before and behind a point** that spell a decimal rounded to `m`. -/
structure Positional (whole places : List Char) (m : Magnitude) : Prop where
  whole_ne_nil : whole ≠ []
  places_ne_nil : places ≠ []
  isDigit : ∀ c ∈ whole ++ places, c.isDigit = true
  nearest_eq : (Decimal.ofDigits (whole ++ places) whole.length).nearest = m

namespace Layout

/-- **Positional form puts a point between digits**, and zeros before or behind them where it needs
them. -/
theorem exists_positional {ds : List Char} {p : Int} (hne : ds ≠ [])
    (hds : ∀ c ∈ ds, c.isDigit = true) :
    ∃ whole places, answer.writePositional ds p = whole ++ '.' :: places ∧
      Positional whole places (Decimal.ofDigits ds p).nearest := by
  have hzeros : ∀ k, ∀ c ∈ List.replicate k '0', c.isDigit = true := by
    intro k c hc
    rw [List.eq_of_mem_replicate hc]
    decide
  unfold writePositional
  split
  · next hp =>
    -- the point stands before the digits
    refine ⟨['0'], List.replicate (-p).toNat '0' ++ ds, by simp, by simp, by simp [hne], ?_, ?_⟩
    · exact List.forall_mem_append.mpr ⟨hzeros 1, List.forall_mem_append.mpr ⟨hzeros _, hds⟩⟩
    · have hp : ((['0'] : List Char).length : Int) = p + ((-p).toNat + 1 : Nat) := by
        simp
        omega
      rw [hp, ← List.append_assoc]
      exact congrArg Decimal.nearest (Decimal.ofDigits_zeros_append ((-p).toNat + 1) ds p)
  · next hp =>
    split
    · next hlen =>
      -- it stands behind them
      refine ⟨ds ++ List.replicate (p.toNat - ds.length) '0', ['0'], rfl, by simp [hne], by simp,
        ?_, ?_⟩
      · exact List.forall_mem_append.mpr ⟨List.forall_mem_append.mpr ⟨hds, hzeros _⟩, hzeros 1⟩
      · have hp : ((ds ++ List.replicate (p.toNat - ds.length) '0').length : Int) = p := by
          rw [List.length_append, List.length_replicate]
          omega
        rw [hp, List.append_assoc, show ['0'] = List.replicate 1 '0' from rfl,
          List.replicate_append_replicate]
        exact Decimal.nearest_ofDigits_append_zeros ds _ p
    · next hlen =>
      -- it stands between them
      refine ⟨ds.take p.toNat, ds.drop p.toNat, rfl, ?_, ?_, ?_, ?_⟩
      · rw [Ne, List.take_eq_nil_iff]
        exact not_or.mpr ⟨by omega, hne⟩
      · rw [Ne, List.drop_eq_nil_iff]
        exact hlen
      · rwa [List.take_append_drop]
      · have hp : ((ds.take p.toNat).length : Int) = p := by
          rw [List.length_take]
          omega
        rw [hp, List.take_append_drop]

variable {m : Magnitude}

/-- The text of an absolute value. -/
theorem write_toFloat (l : Layout) :
    l.write (m.toFloat false) = String.ofList (l.writeMagnitude m) := by
  rw [write, Magnitude.ofFloat?_toFloat]
  dsimp only
  rw [Magnitude.isNegative_toFloat, if_neg Bool.false_ne_true, List.nil_append]

theorem writeMagnitude_of_positional {l : Layout} (hm : m ≠ Magnitude.infinity)
    (hl : l.positional (m.toFloat false) = true) :
    l.writeMagnitude m =
      l.writePositional (Decimal.shortest m).digits.1 (Decimal.shortest m).digits.2 := by
  rw [writeMagnitude, if_neg hm]
  -- the digits are not to be computed
  generalize (Decimal.shortest m).digits = digits
  obtain ⟨ds, p⟩ := digits
  exact if_pos hl

/-- **What answers write without an exponent** is in positional form, and spells a decimal that is
rounded to the magnitude it is written for. -/
theorem exists_positional_write (hfinite : m.rank < infinityRank)
    (hm : answer.positional (m.toFloat false) = true) :
    ∃ whole places, (answer.write (m.toFloat false)).toList = whole ++ '.' :: places ∧
      Positional whole places m := by
  have hne : m ≠ Magnitude.infinity := by
    rintro rfl
    exact absurd hfinite (Nat.lt_irrefl infinityRank)
  obtain ⟨whole, places, htext, hform⟩ :=
    exists_positional (p := (Decimal.shortest m).digits.2) (Decimal.digits_ne_nil _)
      (Decimal.isDigit_of_mem_digits (Decimal.shortest m))
  rw [Decimal.nearest_ofDigits_digits, Decimal.nearest_shortest hfinite] at hform
  refine ⟨whole, places, ?_, hform⟩
  rw [write_toFloat, String.toList_ofList, writeMagnitude_of_positional hne hm, htext]

end Layout

namespace Positional

variable {whole places : List Char} {m : Magnitude}

/-- The first character is a digit. -/
theorem exists_cons (h : Positional whole places m) :
    ∃ c cs, whole = c :: cs ∧ c.isDigit = true := by
  obtain ⟨c, cs, rfl⟩ := List.exists_cons_of_ne_nil h.whole_ne_nil
  exact ⟨c, cs, rfl, h.isDigit c (by simp)⟩

/-- Digits and a point are the text of a number. -/
theorem shaped (h : Positional whole places m) :
    (Token.number (String.ofList (whole ++ '.' :: places))).Shaped := by
  obtain ⟨c, cs, rfl, hc⟩ := h.exists_cons
  refine ⟨c, cs ++ '.' :: places, String.toList_ofList, hc, fun d hd => ?_⟩
  have hpart : d.isDigit = true ∨ d = '.' := by
    rcases List.mem_append.mp hd with hd | hd
    · exact .inl (h.isDigit d (by simp [hd]))
    · exact (List.mem_cons.mp hd).symm.imp_left fun hd => h.isDigit d (by simp [hd])
  simpa [isNumberPart] using hpart

/-- **The decimal that a literal in positional form spells.** -/
theorem decimal? (h : Positional whole places m) :
    Literal.decimal? (whole ++ '.' :: places) =
      some (Decimal.ofDigits (whole ++ places) whole.length) := by
  have hwhole : ∀ c ∈ whole, c.isDigit = true := fun c hc => h.isDigit c (List.mem_append_left _ hc)
  have hplaces : ∀ c ∈ places, c.isDigit = true :=
    fun c hc => h.isDigit c (List.mem_append_right _ hc)
  have htake : (whole ++ '.' :: places).takeWhile Char.isDigit = whole := by
    rw [List.takeWhile_append_of_pos hwhole, List.takeWhile_cons_of_neg (by decide),
      List.append_nil]
  have hdrop : (whole ++ '.' :: places).dropWhile Char.isDigit = '.' :: places := by
    rw [List.dropWhile_append_of_pos hwhole, List.dropWhile_cons_of_neg (by decide)]
  have hfraction : Literal.fraction ('.' :: places) = (places, []) := by
    rw [Literal.fraction, List.takeWhile_eq_self_iff.mpr hplaces,
      List.dropWhile_eq_nil_iff.mpr hplaces]
  have hexponent : (0 : Int) - places.length = whole.length - ((whole ++ places).length : Int) := by
    rw [List.length_append]
    omega
  rw [Literal.decimal?, htake, hdrop, hfraction]
  dsimp only
  rw [if_neg (by simp [h.whole_ne_nil]), Literal.exponent?, Option.map_some, hexponent,
    Decimal.ofDigits]

/-- **A literal in positional form is read as its magnitude.** -/
theorem read? (h : Positional whole places m) :
    Literal.read? (String.ofList (whole ++ '.' :: places)) = some (m.toFloat false) := by
  have hsign : Literal.splitSign (whole ++ '.' :: places) = (false, whole ++ '.' :: places) := by
    obtain ⟨c, cs, rfl, hc⟩ := h.exists_cons
    exact Literal.splitSign_of_isNamePart (by simp [isNamePart, Char.isAlphanum, hc]) _
  rw [Literal.read?, String.toList_ofList, hsign]
  dsimp only
  rw [h.decimal?]
  dsimp only
  rw [h.nearest_eq]

end Positional

/-! ## Doubles typed as lines -/

/-- **A double that answers write without an exponent**: a zero of either sign, or an absolute value
from `1e-4` on and below `1e16`. -/
def InPositionalRange (x : Float) : Prop :=
  (x == 0) = true ∨ 1e-4 ≤ x.abs ∧ x.abs < 1e16

instance (x : Float) : Decidable (InPositionalRange x) := by
  unfold InPositionalRange
  infer_instance

/-- A double in that range has a magnitude, which is finite. -/
theorem exists_toFloat_of_inPositionalRange {x : Float} (h : InPositionalRange x) :
    ∃ (m : Magnitude) (negative : Bool), x = m.toFloat negative ∧ m.rank < infinityRank ∧
      Layout.answer.positional (m.toFloat false) = true := by
  cases hm : Magnitude.ofFloat? x with
  | none =>
    rw [eq_nan_of_ofFloat? hm] at h
    exact absurd h (by decide +kernel)
  | some m =>
    have hx := Magnitude.toFloat_of_ofFloat? hm
    generalize Layout.isNegative x = negative at hx
    subst hx
    refine ⟨m, negative, rfl, ?_, ?_⟩
    · refine lt_of_le_of_ne m.rank_le fun hrank => ?_
      obtain rfl : m = Magnitude.infinity := Magnitude.ext_rank hrank
      revert negative
      decide +kernel
    · unfold InPositionalRange at h
      rw [Magnitude.abs_toFloat] at h
      simp only [Layout.answer, Bool.or_eq_true, Bool.and_eq_true, decide_eq_true_eq]
      exact h.imp_left beq_zero_toFloat

/-- What is typed behind an absolute value. -/
def typedSign (x : Float) : List Char :=
  if Layout.isNegative x then [' ', '~'] else []

/-- **The line that is typed for a double**: the answer for its absolute value, and `~` behind it if
its sign bit is set. -/
def typedLine (x : Float) : List Char :=
  (Layout.answer.write x.abs).toList ++ typedSign x

/-- The tokens that a line typed for a double has. -/
def typedTokens (x : Float) : List Token :=
  .number (Layout.answer.write x.abs) :: if Layout.isNegative x then [.operator .negate] else []

/-- A number is not prolonged by what is typed behind it. -/
theorem textTokens_append_typedSign {t : Token} (h : t.Shaped) (x : Float) :
    textTokens (t.written ++ typedSign x) =
      t :: if Layout.isNegative x then [.operator .negate] else [] := by
  have hstop : t.Stops (typedSign x) := by
    unfold typedSign
    cases t
    all_goals split
    all_goals simp [Token.Stops, isNumberPart, isNamePart]
  have hnegate : textTokens [' ', '~'] = [.operator .negate] := by decide +kernel
  rw [textTokens_written_append h hstop, typedSign]
  split
  · rw [hnegate]
  · rw [textTokens_of_blank rfl]

namespace Evaluation

/-- **A number, and `~` behind it if it is meant to be negative**, leave the value on the stack that
is meant. -/
theorem advance?_typed {text : String} {m : Magnitude}
    (h : Literal.read? text = some (m.toFloat false)) (symbols : SymbolTable) (negative : Bool) :
    (start symbols).advance? (.number text :: if negative then [.operator .negate] else []) =
      some ⟨symbols, [m.toFloat negative], negative, "", defaultTarget, false⟩ := by
  have hnumber : (start symbols).accept? (.number text) =
      some ((start symbols).push (m.toFloat false)) :=
    (Accepts.number rfl rfl h).accept?
  rw [advance?_cons, hnumber, Option.bind_some]
  cases negative with
  | false => rfl
  | true =>
    have hnegate : ((start symbols).push (m.toFloat false)).accept? (.operator .negate) =
        some (((start symbols).push (m.toFloat false)).replaced (-(m.toFloat false)) []) :=
      (Accepts.negate rfl rfl).accept?
    rw [if_pos rfl, advance?_singleton, hnegate, Magnitude.neg_toFloat]
    rfl

end Evaluation

namespace Session

/-- **The line typed for a double has that double as its value**, bit for bit, whatever values the
names have. The line is a number in positional form, with `~` behind it if the sign bit is set; its
value is stored in `it`, and the answer to it is the text of the double. -/
theorem lineValue_typedLine {x : Float} (hx : InPositionalRange x) {s : Session} {r : TokenReader}
    (hready : s.reader.ready = (.ok (), r)) (hline : r.line = LineCursor.ofLine (typedLine x)) :
    (∃ whole places, (Layout.answer.write x.abs).toList = whole ++ '.' :: places ∧
      whole ≠ [] ∧ places ≠ [] ∧ ∀ c ∈ whole ++ places, c.isDigit = true) ∧
    r.line.tokens = typedTokens x ∧
    s.lineValue.1 = .ok x ∧ s.lineValue.2.symbols = s.symbols.insert defaultTarget x ∧
    s.step.1 = (s.lineValue.2.write (Layout.answer.write x ++ "\n")).1.map (fun _ => none) ∧
    s.step.2 = (s.lineValue.2.write (Layout.answer.write x ++ "\n")).2 ∧
    (s.reader.output.room? = none → s.step.1 = .ok none ∧ s.step.2.reader.output =
      s.reader.output.extend (s.promptText ++ (Layout.answer.write x ++ "\n"))) := by
  obtain ⟨m, negative, rfl, hfinite, hpositional⟩ := exists_toFloat_of_inPositionalRange hx
  obtain ⟨whole, places, htext, hform⟩ := Layout.exists_positional_write hfinite hpositional
  have hopen := TokenReader.not_isFinished_of_ready hready
  have hstring : Layout.answer.write (m.toFloat false) =
      String.ofList (whole ++ '.' :: places) := by
    rw [← htext, String.ofList_toList]
  have htokens : r.line.tokens = typedTokens (m.toFloat negative) := by
    have hshaped : (Token.number (Layout.answer.write (m.toFloat negative).abs)).Shaped := by
      rw [Magnitude.abs_toFloat, hstring]
      exact hform.shaped
    rw [LineCursor.tokens_of_not_isFinished hopen, map_token_lexemes, hline]
    exact textTokens_append_typedSign hshaped _
  have hvalue : s.lineValue.1 = .ok (m.toFloat negative) ∧
      s.lineValue.2.symbols = s.symbols.insert defaultTarget (m.toFloat negative) := by
    have hread : Literal.read? (Layout.answer.write (m.toFloat negative).abs) =
        some (m.toFloat false) := by
      rw [Magnitude.abs_toFloat, hstring]
      exact hform.read?
    apply (lineValue_eq_ok_iff hready).mpr
    rw [htokens, typedTokens, Magnitude.isNegative_toFloat, Evaluation.advance?_typed hread]
    exact ⟨_, rfl, rfl, rfl, rfl⟩
  have hstep : s.step = answer (.ok (m.toFloat negative)) s.lineValue.2 := by
    rw [step_eq_answer, hvalue.1]
  refine ⟨⟨whole, places, ?_, hform.whole_ne_nil, hform.places_ne_nil, hform.isDigit⟩, htokens,
    hvalue.1, hvalue.2, by rw [hstep]; rfl, by rw [hstep]; rfl, fun hroom => ?_⟩
  · rw [Magnitude.abs_toFloat, htext]
  · obtain ⟨hresult, houtput, -⟩ := step_of_unlimited hroom
    rw [hvalue.1] at hresult houtput
    exact ⟨hresult, houtput⟩

/-- The line `2.5 ~` is typed for `-2.5`. -/
theorem lineValue_typedLine_negative :
    let s : Session := ⟨.holding "2.5 ~".toList, ∅⟩
    InPositionalRange (-2.5) ∧ s.reader.ready = (.ok (), s.reader) ∧
      s.reader.line = LineCursor.ofLine (typedLine (-2.5)) ∧ s.lineValue.1 = .ok (-2.5) := by
  intro s
  have hrange : InPositionalRange (-2.5) := by decide +kernel
  have hready : s.reader.ready = (.ok (), s.reader) := TokenReader.ready_holding _
  have hline : s.reader.line = LineCursor.ofLine (typedLine (-2.5)) := by decide +kernel
  obtain ⟨-, -, hvalue, -⟩ := lineValue_typedLine hrange hready hline
  exact ⟨hrange, hready, hline, hvalue⟩

end Session

end StackCalculator
