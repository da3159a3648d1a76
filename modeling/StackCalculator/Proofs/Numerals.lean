import StackCalculator.Proofs.Answers
import StackCalculator.Proofs.BitPatterns
import StackCalculator.Proofs.Placement
import StackCalculator.Proofs.Renaming
import StackCalculator.Proofs.Viability

/-!
# Numerals

A text that is needed as a number may be one that spells none. The text of a number can have any
number of points, and a literal has at most one; a name is no literal, except for the three words
that spell what no digits do. Texts are needed as numbers at two places, as operands and behind `=`,
and only there a line can break down over one.

## Main definitions

* `Token.IsNumeral`: the tokens whose text spells a number
* `MustSpell before t`: a token that is needed as a number, for the tokens before it
* `Session.ComesTo`: the tokens of a line before one of them are accepted

## Main results

* `Literal.read?_of_number`, `Literal.isSome_read?_of_name`: what the texts of numbers and names
  spell
* `Evaluation.refuses_invalidNumber_iff`: over which tokens a line breaks down
* `Session.invalidNumber_iff`: which texts are numbers, and which lines break down
-/

namespace StackCalculator

/-! ## Digits and points -/

/-- **Digits and points** are digits, with or without a point behind them and more of both. -/
theorem isNumberPart_cases {cs : List Char} (h : ∀ c ∈ cs, isNumberPart c = true) :
    ∃ ds, (∀ d ∈ ds, d.isDigit = true) ∧
      (cs = ds ∨ ∃ rest, cs = ds ++ '.' :: rest ∧ ∀ c ∈ rest, isNumberPart c = true) := by
  induction cs with
  | nil => exact ⟨[], by simp, .inl rfl⟩
  | cons c cs ih =>
    obtain ⟨hc, hcs⟩ := List.forall_mem_cons.mp h
    rw [isNumberPart, Bool.or_eq_true, decide_eq_true_eq] at hc
    rcases hc with hc | rfl
    · obtain ⟨ds, hds, hcases⟩ := ih hcs
      refine ⟨c :: ds, List.forall_mem_cons.mpr ⟨hc, hds⟩, ?_⟩
      rcases hcases with rfl | ⟨rest, rfl, hrest⟩
      · exact .inl rfl
      · exact .inr ⟨rest, rfl, hrest⟩
    · exact ⟨[], by simp, .inr ⟨cs, rfl, hcs⟩⟩

theorem count_point_of_isDigit {ds : List Char} (h : ∀ d ∈ ds, d.isDigit = true) :
    ds.count '.' = 0 :=
  List.count_eq_zero.mpr fun hmem => absurd (h '.' hmem) (by decide)

theorem toLower_of_isDigit {c : Char} (h : c.isDigit = true) : c.toLower = c := by
  unfold Char.toLower
  split
  · next hupper =>
    have hle : 'A'.toNat ≤ '9'.toNat :=
      (UInt32.le_iff_toNat_le.mp hupper.1).trans (Char.isDigit_iff_toNat.mp h).2
    exact absurd hle (by decide)
  · rfl

namespace Literal

/-- **The decimal that digits spell**, with what stands behind them. -/
theorem decimal?_digits_append {ds rest : List Char} (hne : ds ≠ [])
    (hds : ∀ d ∈ ds, d.isDigit = true) (hrest : ∀ c ∈ rest.head?, c.isDigit = false) :
    (decimal? (ds ++ rest)).isSome = (exponent? (fraction rest).2).isSome := by
  obtain ⟨htake, hdrop⟩ := takeWhile_dropWhile_of_stops hds hrest
  rw [decimal?, htake, hdrop]
  dsimp only
  rw [if_neg (by simp [hne]), Option.isSome_map]

theorem fraction_digits_append {ds rest : List Char} (hds : ∀ d ∈ ds, d.isDigit = true)
    (hrest : ∀ c ∈ rest.head?, c.isDigit = false) :
    fraction ('.' :: (ds ++ rest)) = (ds, rest) := by
  obtain ⟨htake, hdrop⟩ := takeWhile_dropWhile_of_stops hds hrest
  rw [fraction, htake, hdrop]

/-- **Digits and points spell a decimal** if and only if there is at most one point. -/
theorem isSome_decimal?_iff {c : Char} {cs : List Char} (hc : c.isDigit = true)
    (hcs : ∀ d ∈ cs, isNumberPart d = true) :
    (decimal? (c :: cs)).isSome = true ↔ (c :: cs).count '.' ≤ 1 := by
  have hpoint : ∀ rest : List Char, ∀ d ∈ ('.' :: rest).head?, d.isDigit = false := by
    rintro rest d hd
    obtain rfl := Option.some.inj hd
    decide
  obtain ⟨ds, hds, hcases⟩ := isNumberPart_cases hcs
  have hwhole : ∀ d ∈ c :: ds, d.isDigit = true := List.forall_mem_cons.mpr ⟨hc, hds⟩
  have hne : c :: ds ≠ [] := List.cons_ne_nil c ds
  rcases hcases with rfl | ⟨rest, rfl, hrest⟩
  · -- no point
    have hsome : (decimal? (c :: cs ++ [])).isSome = (exponent? (fraction []).2).isSome :=
      decimal?_digits_append hne hwhole (by simp)
    rw [List.append_nil] at hsome
    rw [hsome, count_point_of_isDigit hwhole]
    simp [fraction, exponent?]
  · have hsome := decimal?_digits_append hne hwhole (hpoint rest)
    obtain ⟨ps, hps, hcases⟩ := isNumberPart_cases hrest
    rw [← List.cons_append, hsome, List.count_append, count_point_of_isDigit hwhole,
      List.count_cons_self]
    rcases hcases with rfl | ⟨more, rfl, -⟩
    · -- one point
      have hfraction : fraction ('.' :: (rest ++ [])) = (rest, []) :=
        fraction_digits_append hps (by simp)
      rw [List.append_nil] at hfraction
      rw [hfraction, count_point_of_isDigit hps]
      simp [exponent?]
    · -- another point, which is no exponent
      rw [fraction_digits_append hps (hpoint more), List.count_append, count_point_of_isDigit hps,
        List.count_cons_self]
      simp [exponent?]

variable {text : String}

/-- **What the text of a number spells**: a positive number, if it has at most one point, and else
nothing. -/
theorem read?_of_number (h : (Token.number text).Shaped) :
    (text.toList.count '.' ≤ 1 → ∃ m : Magnitude, read? text = some (m.toFloat false)) ∧
      (1 < text.toList.count '.' → read? text = none) := by
  obtain ⟨c, cs, htext, hc, hcs⟩ := h
  have hsign := splitSign_of_isNamePart (c := c) (by simp [isNamePart, Char.isAlphanum, hc]) cs
  have hiff := isSome_decimal?_iff hc hcs
  rw [read?, htext, hsign]
  dsimp only
  constructor
  · intro hcount
    obtain ⟨d, hd⟩ := Option.isSome_iff_exists.mp (hiff.mpr hcount)
    rw [hd]
    exact ⟨d.nearest, rfl⟩
  · intro hcount
    have hnone : decimal? (c :: cs) = none :=
      Option.not_isSome_iff_eq_none.mp fun hsome => absurd (hiff.mp hsome) (Nat.not_le.mpr hcount)
    have hword : ∀ (word : String) (d : Char), word.toList.head? = some d → d.isDigit = false →
        (c :: cs).map Char.toLower ≠ word.toList := by
      intro word d hhead hd heq
      rw [← heq, List.map_cons, toLower_of_isDigit hc] at hhead
      obtain rfl := Option.some.inj hhead
      rw [hc] at hd
      cases hd
    rw [hnone]
    dsimp only
    rw [if_neg (not_or.mpr ⟨hword "inf" 'i' rfl rfl, hword "infinity" 'i' rfl rfl⟩),
      if_neg (hword "nan" 'n' rfl rfl)]

/-- **What a name spells**: a number if it is one of the words that do, and else nothing. -/
theorem isSome_read?_of_name (h : (Token.identifier text).Shaped) :
    (read? text).isSome = true ↔ SpellsNumber text := by
  constructor
  · intro hsome
    by_contra hword
    rw [read?_eq_none_of_name h hword] at hsome
    cases hsome
  · intro hword
    obtain ⟨c, cs, htext, hc, -⟩ := h
    rw [SpellsNumber, htext] at hword
    simp only [List.mem_cons, List.not_mem_nil, or_false] at hword
    rw [read?, htext, splitSign_of_isNamePart (isNamePart_of_isNameStart hc)]
    dsimp only
    cases decimal? (c :: cs) with
    | some d => rfl
    | none =>
      dsimp only
      rcases hword with hinf | hinfinity | hnan
      · rw [if_pos (.inl hinf)]
        rfl
      · rw [if_pos (.inr hinfinity)]
        rfl
      · rw [if_pos hnan]
        split <;> rfl

/-- The value of a text that has to be a number is the number that it spells. -/
theorem value_eq_ok_iff {column : Nat} {x : Float} :
    value text column = .ok x ↔ read? text = some x := by
  rw [value]
  cases read? text with
  | some y => simp
  | none => simp

theorem value_of_read?_eq_none (h : read? text = none) (column : Nat) :
    value text column = .error (.invalidNumber text column) := by
  rw [value, h]

/-- **Which texts of numbers are literals**: those with at most one point, and these spell a number
without a sign. -/
theorem value_of_number (h : (Token.number text).Shaped) (column : Nat) :
    ((∃ x, value text column = .ok x) ↔ text.toList.count '.' ≤ 1) ∧
      (∀ x, value text column = .ok x → x.isNaN = false ∧ Layout.isNegative x = false) ∧
      (1 < text.toList.count '.' → value text column = .error (.invalidNumber text column)) := by
  obtain ⟨hone, hmany⟩ := read?_of_number h
  simp only [value_eq_ok_iff]
  refine ⟨⟨?_, fun hcount => ?_⟩, fun x hx => ?_,
    fun hcount => value_of_read?_eq_none (hmany hcount) column⟩
  · rintro ⟨x, hx⟩
    by_contra hcount
    rw [hmany (Nat.lt_of_not_le hcount)] at hx
    cases hx
  · obtain ⟨m, hm⟩ := hone hcount
    exact ⟨_, hm⟩
  · rcases Nat.lt_or_ge 1 (text.toList.count '.') with hcount | hcount
    · rw [hmany hcount] at hx
      cases hx
    · obtain ⟨m, hm⟩ := hone hcount
      obtain rfl := Option.some.inj (hm.symm.trans hx)
      exact ⟨m.isNaN_toFloat false, m.isNegative_toFloat false⟩

/-- **Which names are literals**: the words for a number, in any letter case. -/
theorem value_of_name (h : (Token.identifier text).Shaped) (column : Nat) :
    ((∃ x, value text column = .ok x) ↔ SpellsNumber text) ∧
      (¬ SpellsNumber text → value text column = .error (.invalidNumber text column)) := by
  simp only [value_eq_ok_iff]
  exact ⟨Option.isSome_iff_exists.symm.trans (isSome_read?_of_name h),
    fun hword => value_of_read?_eq_none (read?_eq_none_of_name h hword) column⟩

end Literal

/-! ## Tokens that are needed as numbers -/

namespace Token

/-- **The tokens whose text spells a number**: numbers with at most one point, and the names that
are words for one. -/
def IsNumeral : Token → Prop
  | .number text => text.toList.count '.' ≤ 1
  | .identifier text => SpellsNumber text
  | _ => False

/-- **These are the tokens with a literal as their text.** -/
theorem isSome_numeral?_iff {t : Token} (h : t.Shaped) :
    t.numeral?.isSome = true ↔ t.IsNumeral := by
  cases t with
  | number text =>
    obtain ⟨hone, hmany⟩ := Literal.read?_of_number h
    constructor
    · intro hsome
      by_contra hcount
      rw [numeral?, text?, Option.bind_some, hmany (Nat.lt_of_not_le hcount)] at hsome
      cases hsome
    · intro hcount
      obtain ⟨m, hm⟩ := hone hcount
      rw [numeral?, text?, Option.bind_some, hm]
      rfl
  | identifier text => exact Literal.isSome_read?_of_name h
  | operator | invalid => exact iff_of_false Bool.false_ne_true id
  | endOfLine => exact h.elim

theorem isOperand_of_text? {t : Token} {text : String} (h : t.text? = some text) :
    t.isOperand = true := by
  cases t with
  | number | identifier => rfl
  | operator | invalid | endOfLine => cases h

end Token

/-- **A token that is needed as a number**, for the tokens before it: a number or a name behind `=`,
and elsewhere a number that does not come behind an operator. -/
def MustSpell (before : List Token) (t : Token) : Prop :=
  before.getLast? = some (.operator .assign) ∧ t.isOperand = true ∨
    before.getLast? ≠ some (.operator .assign) ∧ (∃ text, t = .number text) ∧
      ¬ EndsInOperator before

namespace Evaluation

variable {symbols : SymbolTable} {e : Evaluation} {before : List Token} {t : Token} {text : String}
  {column column' : Nat}

/-- **A line breaks down over a token that is needed as a number and spells none**, and over no
other. -/
theorem refuses_invalidNumber_iff (h : (start symbols).advance? before = some e) (ht : t.Shaped) :
    Refuses e column t (.fatal (.invalidNumber text column')) ↔
      column' = column ∧ t.text? = some text ∧ MustSpell before t ∧ ¬ t.IsNumeral := by
  have hassign := assigning_of_advance? rfl h
  have hplace := afterOperator_iff h
  have hnumeral := Token.isSome_numeral?_iff ht
  constructor
  · intro hrefuses
    cases hrefuses with
    | invalidTarget ha htext hx =>
      refine ⟨rfl, htext, .inl ⟨hassign.mp ha, Token.isOperand_of_text? htext⟩, ?_⟩
      rw [← hnumeral, Token.numeral?, htext, Option.bind_some, hx]
      exact Bool.false_ne_true
    | invalidNumber ha ho hx =>
      refine ⟨rfl, rfl, .inr ⟨?_, ⟨text, rfl⟩, ?_⟩, ?_⟩
      · rw [Ne, ← hassign, ha]
        exact Bool.false_ne_true
      · rw [← hplace, ho]
        exact Bool.false_ne_true
      · rw [← hnumeral, Token.numeral?, Token.text?, Option.bind_some, hx]
        exact Bool.false_ne_true
  · rintro ⟨rfl, htext, hmust, hnone⟩
    have hx : Literal.read? text = none := by
      rw [← hnumeral, Token.numeral?, htext, Option.bind_some] at hnone
      exact Option.not_isSome_iff_eq_none.mp hnone
    rcases hmust with ⟨hlast, -⟩ | ⟨hlast, ⟨text', rfl⟩, hoperator⟩
    · exact .invalidTarget (hassign.mpr hlast) htext hx
    · obtain rfl := Option.some.inj htext
      exact .invalidNumber (eq_false_of_ne_true fun ha => hlast (hassign.mp ha))
        (eq_false_of_ne_true fun ho => hoperator (hplace.mp ho)) hx

end Evaluation

namespace Session

open Evaluation

/-- **A line comes to a token**: the line is at hand, and the tokens before this one are
accepted. -/
structure ComesTo (s : Session) (before : List (Token × Nat)) (e : Evaluation) (t : Token)
    (column : Nat) (behind : List (Token × Nat)) : Prop where
  exists_ready : ∃ r, s.reader.ready = (.ok (), r) ∧
    r.line.pending = before ++ (t, column) :: behind
  advance_eq : (Evaluation.start s.symbols).advance? (before.map Prod.fst) = some e

/-- A token that a line comes to has its shape, unless it is the end of the line. -/
theorem ComesTo.shaped {s : Session} {before behind : List (Token × Nat)}
    {e : Evaluation} {t : Token} {column : Nat} (h : s.ComesTo before e t column behind)
    (ht : t ≠ .endOfLine) : t.Shaped := by
  obtain ⟨r, hready, hline⟩ := h.exists_ready
  exact shaped_of_pending (TokenReader.not_isFinished_of_ready hready) hline ht

/-- A token that a line comes to and that is refused cuts the line short. -/
theorem ComesTo.of_refuses {s : Session} {before behind : List (Token × Nat)}
    {e : Evaluation} {t : Token} {column : Nat} {i : Interrupt}
    (h : s.ComesTo before e t column behind) (hrefuses : Refuses e column t i) :
    s.lineValue.1 = .error i ∧ s.lineValue.2.symbols = e.symbols ∧
      s.lineValue.2.reader.line.pending = behind := by
  obtain ⟨r, hready, hline⟩ := h.exists_ready
  have hfeed := hrefuses.feed_eq
  obtain ⟨hpending, hverdict⟩ :=
    lineValue_of_settles hready ⟨hline, h.advance_eq, accept?_of_stopped hfeed⟩
  rw [hfeed] at hverdict
  obtain ⟨hvalue, hsymbols⟩ := Prod.mk.inj (Option.some.inj hverdict)
  exact ⟨hvalue.symm, hsymbols.symm, hpending⟩

/-- A line that breaks down over a text comes to the token that it is the text of. -/
theorem exists_comesTo_of_invalidNumber {s : Session} {text : String} {column : Nat}
    (h : s.lineValue.1 = .error (.fatal (.invalidNumber text column))) :
    ∃ before e t column' behind, s.ComesTo before e t column' behind ∧
      Refuses e column' t (.fatal (.invalidNumber text column)) := by
  obtain ⟨r, hready⟩ := exists_ready_of_error h (by simp) (by simp)
  obtain ⟨before, e, t, column', behind, hsettles, -, hverdict⟩ := lineValue_settles hready
  rw [h] at hverdict
  obtain ⟨hfeed, -⟩ := Progress.eq_stopped_of_verdict? hverdict
  exact ⟨before, e, t, column', behind, ⟨⟨r, hready, hsettles.line_eq⟩, hsettles.advance_eq⟩,
    refuses_of_feed hfeed⟩

/-- **A line that comes to a token that is needed as a number and spells none.** -/
structure BreaksOver (s : Session) (text : String) (column : Nat) (before : List (Token × Nat))
    (e : Evaluation) (t : Token) (behind : List (Token × Nat)) : Prop where
  comesTo : s.ComesTo before e t column behind
  text_eq : t.text? = some text
  mustSpell : MustSpell (before.map Prod.fst) t
  not_isNumeral : ¬ t.IsNumeral

variable {s : Session} {text : String} {column : Nat}

/-- **Such a line breaks down** with the text and the column of the token. The token stores nothing,
and the tokens behind it are left. -/
theorem BreaksOver.lineValue {before behind : List (Token × Nat)} {e : Evaluation} {t : Token}
    (h : s.BreaksOver text column before e t behind) :
    s.lineValue.1 = .error (.fatal (.invalidNumber text column)) ∧
      s.lineValue.2.symbols = e.symbols ∧ s.lineValue.2.reader.line.pending = behind := by
  have hend : t ≠ .endOfLine := by
    rintro rfl
    cases h.text_eq
  have hrefuses : Refuses e column t (.fatal (.invalidNumber text column)) :=
    (refuses_invalidNumber_iff h.comesTo.advance_eq (h.comesTo.shaped hend)).mpr
      ⟨rfl, h.text_eq, h.mustSpell, h.not_isNumeral⟩
  exact h.comesTo.of_refuses hrefuses

/-- **No other line breaks down** over a text. -/
theorem exists_breaksOver (h : s.lineValue.1 = .error (.fatal (.invalidNumber text column))) :
    ∃ before e t behind, s.BreaksOver text column before e t behind := by
  obtain ⟨before, e, t, column', behind, hcomes, hrefuses⟩ := exists_comesTo_of_invalidNumber h
  have hend : t ≠ .endOfLine := by
    rintro rfl
    cases hrefuses with
    | invalidTarget _ htext => cases htext
  obtain ⟨rfl, htext, hmust, hnone⟩ :=
    (refuses_invalidNumber_iff hcomes.advance_eq (hcomes.shaped hend)).mp hrefuses
  exact ⟨before, e, t, behind, hcomes, htext, hmust, hnone⟩

/-- **Which texts are numbers, and which lines break down.** The text of a number is one if it has
at most one point, and then its value is a number without a sign; a name is one if it is a word for
one. A line breaks down exactly if it comes to a token that is needed as a number and is none, and
then with the text and the column of this token, which stores nothing. -/
theorem invalidNumber_iff :
    (∀ text, (Token.number text).Shaped → ∀ column,
      ((∃ x, Literal.value text column = .ok x) ↔ text.toList.count '.' ≤ 1) ∧
      (∀ x, Literal.value text column = .ok x → x.isNaN = false ∧ Layout.isNegative x = false) ∧
      (1 < text.toList.count '.' →
        Literal.value text column = .error (.invalidNumber text column))) ∧
    (∀ text, (Token.identifier text).Shaped → ∀ column,
      ((∃ x, Literal.value text column = .ok x) ↔ SpellsNumber text) ∧
      (¬ SpellsNumber text → Literal.value text column = .error (.invalidNumber text column))) ∧
    ∀ (s : Session) (text : String) (column : Nat),
      (s.lineValue.1 = .error (.fatal (.invalidNumber text column)) ↔
        ∃ before e t behind, s.BreaksOver text column before e t behind) ∧
      ∀ before e t behind, s.BreaksOver text column before e t behind →
        s.lineValue.2.symbols = e.symbols ∧ s.lineValue.2.reader.line.pending = behind := by
  refine ⟨fun text h => Literal.value_of_number h, fun text h => Literal.value_of_name h,
    fun s text column => ⟨⟨exists_breaksOver, ?_⟩, fun before e t behind h => h.lineValue.2⟩⟩
  rintro ⟨before, e, t, behind, h⟩
  exact h.lineValue.1

/-- The line `1 x = 1.2.3` breaks down over its last token; `Nan` is a number, and `e10` is none. -/
theorem invalidNumber_iff_lines :
    (⟨.holding "1 x = 1.2.3".toList, ∅⟩ : Session).lineValue.1 =
        .error (.fatal (.invalidNumber "1.2.3" 7)) ∧
      (∃ x, Literal.value "1.25" 1 = .ok x ∧ x.isNaN = false) ∧
      (∃ x, Literal.value "Nan" 1 = .ok x) ∧
      Literal.value "e10" 1 = .error (.invalidNumber "e10" 1) := by
  obtain ⟨hnumber, hname, hline⟩ := invalidNumber_iff
  refine ⟨(hline _ "1.2.3" 7).1.mpr ?_, ?_, ?_, ?_⟩
  · obtain ⟨e, he⟩ : ∃ e, (Evaluation.start ∅).advance?
        [.number "1", .identifier "x", .operator .assign] = some e :=
      Option.isSome_iff_exists.mp (by decide +kernel)
    refine ⟨[(.number "1", 1), (.identifier "x", 3), (.operator .assign, 5)], e, .number "1.2.3",
      [(.endOfLine, 12)], ⟨⟨_, TokenReader.ready_holding _, by decide +kernel⟩, he⟩, rfl,
      .inl ⟨rfl, rfl⟩, ?_⟩
    simp only [Token.IsNumeral]
    decide
  · obtain ⟨hiff, hvalue, -⟩ :=
      hnumber "1.25" ⟨'1', ['.', '2', '5'], rfl, rfl, by simp [isNumberPart]⟩ 1
    obtain ⟨x, hx⟩ := hiff.mpr (by decide)
    exact ⟨x, hx, (hvalue x hx).1⟩
  · exact (hname "Nan" (by decide) 1).1.mpr (by decide)
  · exact (hname "e10" (by decide) 1).2 (by decide)

end Session

end StackCalculator
