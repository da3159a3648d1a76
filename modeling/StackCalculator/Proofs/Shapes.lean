import StackCalculator.Number.Literal
import StackCalculator.Proofs.Pending

/-!
# Shapes of tokens

Each token that a text can be cut into has a shape: a number is a digit with digits and points
behind it, a name begins with a letter or underscore and goes on with digits too, and a character
that belongs to no other token is no blank. A token of such a shape is cut off the head of a text if
it stands there and what follows cannot prolong it. So tokens written with blanks between them are
read back.

## Main definitions

* `Token.Shaped`: the shape of a token
* `Token.Stops`: what follows a token does not prolong it
* `textTokens cs`: the tokens of a text
* `spaced ts`: tokens written with a blank after each

## Main results

* `Token.shaped_first`: the token at the head of a text has its shape
* `Token.first_written_append_of_shaped`: a token of its shape is cut off again
* `textTokens_spaced`: tokens written with blanks are read back
-/

namespace StackCalculator

/-! ## Characters -/

theorem isBlank_of_isDigit {c : Char} (h : c.isDigit = true) : isBlank c = false := by
  cases hb : isBlank c with
  | false => rfl
  | true =>
    obtain rfl | rfl : c = ' ' ∨ c = '\t' := by simpa [isBlank] using hb
    · exact absurd h (by decide)
    · exact absurd h (by decide)

theorem isBlank_of_isNameStart {c : Char} (h : isNameStart c = true) : isBlank c = false := by
  cases hb : isBlank c with
  | false => rfl
  | true =>
    obtain rfl | rfl : c = ' ' ∨ c = '\t' := by simpa [isBlank] using hb
    · exact absurd h (by decide)
    · exact absurd h (by decide)

/-- All letters come behind the digits. -/
theorem le_toNat_of_isAlpha {c : Char} (h : c.isAlpha = true) : 'A'.toNat ≤ c.toNat := by
  rcases Bool.or_eq_true_iff.mp h with hupper | hlower
  · exact UInt32.le_iff_toNat_le.mp (of_decide_eq_true hupper).1
  · have hle : 'a'.toNat ≤ c.toNat :=
      UInt32.le_iff_toNat_le.mp (of_decide_eq_true (Bool.and_eq_true_iff.mp hlower).1)
    exact Nat.le_trans (by decide) hle

/-- A name does not begin with a digit. -/
theorem isDigit_of_isNameStart {c : Char} (h : isNameStart c = true) : c.isDigit = false := by
  rcases (by simpa [isNameStart] using h : c.isAlpha = true ∨ c = '_') with ha | rfl
  · refine eq_false_of_ne_true fun hd => ?_
    have hle : 'A'.toNat ≤ '9'.toNat :=
      (le_toNat_of_isAlpha ha).trans (Char.isDigit_iff_toNat.mp hd).2
    exact absurd hle (by decide)
  · decide

/-- The character of an operator begins neither a number nor a name, and is no blank. -/
theorem symbol_starts_nothing (op : Operator) :
    isBlank op.symbol = false ∧ op.symbol.isDigit = false ∧ isNameStart op.symbol = false := by
  rcases op with (_ | _ | _ | _) | _ | _ <;> decide

/-- What begins a number or a name is no sign. -/
theorem Literal.splitSign_of_isNamePart {c : Char} (h : isNamePart c = true) (cs : List Char) :
    Literal.splitSign (c :: cs) = (false, c :: cs) := by
  unfold Literal.splitSign
  split
  · next heq =>
    cases heq
    exact absurd h (by decide)
  · next heq =>
    cases heq
    exact absurd h (by decide)
  · rfl

namespace Token

/-! ## One token -/

/-- **The shape of a token** that a text can be cut into. -/
def Shaped : Token → Prop
  | .number text =>
    ∃ c cs, text.toList = c :: cs ∧ c.isDigit = true ∧ ∀ d ∈ cs, isNumberPart d = true
  | .identifier text =>
    ∃ c cs, text.toList = c :: cs ∧ isNameStart c = true ∧ ∀ d ∈ cs, isNamePart d = true
  | .operator _ => True
  | .invalid c =>
    isBlank c = false ∧ c.isDigit = false ∧ isNameStart c = false ∧ Operator.ofSymbol? c = none
  | .endOfLine => False

/-- **What follows a token does not prolong it.** -/
def Stops (rest : List Char) : Token → Prop
  | .number _ => ∀ c ∈ rest.head?, isNumberPart c = false
  | .identifier _ => ∀ c ∈ rest.head?, isNamePart c = false
  | _ => True

/-- **The token at the head of a text has its shape.** -/
theorem shaped_first {c : Char} (cs : List Char) (h : isBlank c = false) :
    (first (c :: cs)).Shaped := by
  simp only [first]
  split
  · next hd =>
    exact ⟨c, cs.takeWhile isNumberPart, String.toList_ofList, hd, fun d => List.mem_takeWhile_imp⟩
  · next hd =>
    split
    · next hn =>
      exact ⟨c, cs.takeWhile isNamePart, String.toList_ofList, hn, fun d => List.mem_takeWhile_imp⟩
    · next hn =>
      cases hop : Operator.ofSymbol? c with
      | some op => trivial
      | none => exact ⟨h, eq_false_of_ne_true hd, eq_false_of_ne_true hn, hop⟩

/-- A token of its shape does not begin with a blank. -/
theorem Shaped.written_eq_cons {t : Token} (h : t.Shaped) :
    ∃ c cs, t.written = c :: cs ∧ isBlank c = false := by
  cases t with
  | number text =>
    obtain ⟨c, cs, htext, hc, -⟩ := h
    exact ⟨c, cs, htext, isBlank_of_isDigit hc⟩
  | identifier text =>
    obtain ⟨c, cs, htext, hc, -⟩ := h
    exact ⟨c, cs, htext, isBlank_of_isNameStart hc⟩
  | operator op => exact ⟨op.symbol, [], rfl, (symbol_starts_nothing op).1⟩
  | invalid c => exact ⟨c, [], rfl, h.1⟩
  | endOfLine => exact h.elim

/-- The text of a number is no name. -/
theorem not_shaped_identifier_of_number {text : String} (h : (Token.number text).Shaped) :
    ¬ (Token.identifier text).Shaped := by
  rintro ⟨c, cs, htext, hstart, -⟩
  obtain ⟨d, ds, htext', hdigit, -⟩ := h
  obtain ⟨rfl, -⟩ := List.cons.inj (htext.symm.trans htext')
  rw [isDigit_of_isNameStart hstart] at hdigit
  cases hdigit

theorem takeWhile_append_of_stops {p : Char → Bool} {cs rest : List Char}
    (hcs : ∀ d ∈ cs, p d = true) (hrest : ∀ c ∈ rest.head?, p c = false) :
    (cs ++ rest).takeWhile p = cs := by
  have hnone : rest.takeWhile p = [] := by
    cases rest with
    | nil => rfl
    | cons c rest => exact List.takeWhile_cons_of_neg (by simp [hrest c rfl])
  rw [List.takeWhile_append_of_pos hcs, hnone, List.append_nil]

/-- **A token of its shape is cut off again**, if what follows does not prolong it. -/
theorem first_written_append_of_shaped {t : Token} (h : t.Shaped) {rest : List Char}
    (hstop : t.Stops rest) : first (t.written ++ rest) = t := by
  cases t with
  | number text =>
    obtain ⟨c, cs, htext, hc, hcs⟩ := h
    simp only [written, htext, List.cons_append, first, hc, if_true]
    rw [takeWhile_append_of_stops hcs hstop, ← htext, String.ofList_toList]
  | identifier text =>
    obtain ⟨c, cs, htext, hc, hcs⟩ := h
    simp only [written, htext, List.cons_append, first, isDigit_of_isNameStart hc, hc, if_true,
      Bool.false_eq_true, if_false]
    rw [takeWhile_append_of_stops hcs hstop, ← htext, String.ofList_toList]
  | operator op =>
    obtain ⟨-, hd, hn⟩ := symbol_starts_nothing op
    simp [written, first, hd, hn]
  | invalid c =>
    obtain ⟨-, hd, hn, hop⟩ := h
    simp [written, first, hd, hn, hop]
  | endOfLine => exact h.elim

end Token

/-! ## The tokens of a text -/

/-- **The tokens of a text**, without the end of the line. -/
def textTokens (cs : List Char) : List Token :=
  (lexemes (fun _ => 1) 0 cs).map Lexeme.token

/-- Where a text begins does not matter to its tokens. -/
theorem map_token_lexemes (p : Nat) (cs : List Char) :
    (lexemes (fun _ => 1) p cs).map Lexeme.token = textTokens cs := by
  -- for all positions, since each token moves the position of those behind it
  have h : ∀ q, (lexemes (fun _ => 1) p cs).map Lexeme.token
      = (lexemes (fun _ => 1) q cs).map Lexeme.token := by
    fun_induction lexemes (fun _ => 1) p cs with
    | case1 p cs rest hr =>
      intro q
      rw [lexemes_one, if_pos hr]
    | case2 p cs rest hr token begin stop ih =>
      intro q
      rw [lexemes_one q cs, if_neg hr, List.map_cons, List.map_cons]
      exact congrArg _ (ih _)
  exact h 0

/-- The tokens of a text, and the end of the line behind them. -/
theorem map_fst_lineTokens (p : Nat) (cs : List Char) :
    (lineTokens p cs).map Prod.fst = textTokens cs ++ [.endOfLine] := by
  rw [← map_token_lexemes p, lineTokens, List.map_append, List.map_map]
  rfl

theorem textTokens_of_blank {cs : List Char} (h : cs.dropWhile isBlank = []) :
    textTokens cs = [] := by
  rw [textTokens, lexemes_one, if_pos h]
  rfl

theorem textTokens_of_ne_nil {cs : List Char} (h : cs.dropWhile isBlank ≠ []) :
    let token := Token.first (cs.dropWhile isBlank)
    textTokens cs = token :: textTokens ((cs.dropWhile isBlank).drop token.written.length) := by
  intro token
  rw [textTokens, lexemes_one, if_neg h, List.map_cons, map_token_lexemes]

/-- **Each token of a text has its shape.** -/
theorem shaped_of_mem_textTokens (cs : List Char) : ∀ t ∈ textTokens cs, t.Shaped := by
  rw [textTokens]
  fun_induction lexemes (fun _ => 1) 0 cs with
  | case1 => simp
  | case2 p cs rest hr token begin stop ih =>
    intro t ht
    rcases List.mem_cons.mp ht with rfl | ht
    · cases hrest : rest with
      | nil => exact absurd hrest hr
      | cons c cs' =>
        have hc : isBlank c = false := by
          have := List.head?_dropWhile_not isBlank cs
          rw [show cs.dropWhile isBlank = c :: cs' from hrest] at this
          simpa using this
        have := Token.shaped_first cs' hc
        rwa [← hrest] at this
    · exact ih t ht

/-- A blank before a text changes nothing. -/
theorem textTokens_blank (cs : List Char) : textTokens (' ' :: cs) = textTokens cs := by
  have hdrop : (' ' :: cs).dropWhile isBlank = cs.dropWhile isBlank :=
    List.dropWhile_cons_of_pos (by decide)
  by_cases h : cs.dropWhile isBlank = []
  · rw [textTokens_of_blank h, textTokens_of_blank (hdrop.trans h)]
  · rw [textTokens_of_ne_nil h, textTokens_of_ne_nil (hdrop ▸ h), hdrop]

/-- A token of its shape is the first token of a text that it heads, if nothing prolongs it. -/
theorem textTokens_written_append {t : Token} (h : t.Shaped) {rest : List Char}
    (hstop : t.Stops rest) : textTokens (t.written ++ rest) = t :: textTokens rest := by
  obtain ⟨c, cs, hwritten, hc⟩ := h.written_eq_cons
  have hdrop : (t.written ++ rest).dropWhile isBlank = t.written ++ rest := by
    rw [hwritten, List.cons_append]
    exact List.dropWhile_cons_of_neg (by simp [hc])
  have hne : (t.written ++ rest).dropWhile isBlank ≠ [] := by
    rw [hdrop, hwritten]
    exact List.cons_ne_nil _ _
  rw [textTokens_of_ne_nil hne, hdrop, Token.first_written_append_of_shaped h hstop,
    List.drop_left]

/-- Tokens written with a blank after each. -/
def spaced (ts : List Token) : List Char :=
  ts.flatMap fun t => t.written ++ [' ']

/-- **Tokens written with blanks are read back.** -/
theorem textTokens_spaced {ts : List Token} (h : ∀ t ∈ ts, t.Shaped) :
    textTokens (spaced ts) = ts := by
  induction ts with
  | nil => exact textTokens_of_blank rfl
  | cons t ts ih =>
    have hstop : t.Stops (' ' :: spaced ts) := by
      cases t <;> simp [Token.Stops, isNumberPart, isNamePart]
    have hcons : spaced (t :: ts) = t.written ++ ' ' :: spaced ts := by
      simp [spaced]
    rw [hcons, textTokens_written_append (h t List.mem_cons_self) hstop, textTokens_blank,
      ih fun u hu => h u (List.mem_cons_of_mem _ hu)]

end StackCalculator
