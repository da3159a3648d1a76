import StackCalculator.Proofs.Tiling
import StackCalculator.Proofs.Viability

/-!
# Blanks

Blanks separate the tokens of a line, and mean nothing otherwise. Lines of the same tokens are
settled by the same one of them, from the same values on, so that they have the same value or are
interrupted for the same reason. Only the column that is reported is another: in each line it is the
column of that token. And the tokens stay the same if a run of blanks is replaced by another run of
blanks, or blanks are added at either end of the line.

## Main definitions

* `Interrupt.reportedAt`: an interrupt, reported at another column

## Main results

* `Evaluation.Refuses.reportedAt`: a token is refused for the same reason at any column
* `Evaluation.Settles.of_map_fst_eq`: lines of the same tokens are settled by the same token
* `textTokens_append_blanks`: the texts before and behind blanks are cut by themselves
* `Session.blanks_invisible`: lines of the same tokens have the same outcome
-/

namespace StackCalculator

/-- **An interrupt, reported at another column**, if it is one that is reported at a column. -/
def Interrupt.reportedAt (column : Nat) : Interrupt → Interrupt
  | .failed d => .failed ⟨d.fault, column⟩
  | .ended ending => .ended ending
  | .fatal (.stream reason) => .fatal (.stream reason)
  | .fatal (.invalidNumber text _) => .fatal (.invalidNumber text column)

namespace Evaluation

variable {e e' : Evaluation} {t : Token} {column : Nat}

/-- An interrupt is reported at the column of the token that is refused. -/
theorem Refuses.reportedAt_eq {i : Interrupt} (h : Refuses e column t i) :
    i.reportedAt column = i := by
  cases h <;> rfl

/-- **A token is refused for the same reason at any column.** -/
theorem Refuses.reportedAt {i : Interrupt} (h : Refuses e column t i) (column' : Nat) :
    Refuses e column' t (i.reportedAt column') := by
  cases h with
  | missingText ha ht => exact .missingText ha ht
  | invalidTarget ha ht hx => exact .invalidTarget ha ht hx
  | numberAfterOperator ha ho => exact .numberAfterOperator ha ho
  | invalidNumber ha ho hx => exact .invalidNumber ha ho hx
  | nameAfterOperator ha ho => exact .nameAfterOperator ha ho
  | exit ha ho => exact .exit ha ho
  | missingOperand ha hs => exact .missingOperand ha hs
  | insufficientOperands ha hs => exact .insufficientOperands ha hs
  | divisionByZero ha hs hz => exact .divisionByZero ha hs hz
  | noValueToAssign ha hs => exact .noValueToAssign ha hs
  | badToken ha => exact .badToken ha
  | malformedExpression ha hs => exact .malformedExpression ha hs

/-- **What a token makes of its line at another column**: the same, but for the column that is
reported. -/
theorem verdict?_reportedAt {value : Except Interrupt Float} {symbols : SymbolTable}
    (h : (e.feed t column).verdict? e.symbols = some (value, symbols)) (column' : Nat) :
    value = value.mapError (Interrupt.reportedAt column) ∧
      (e.feed t column').verdict? e.symbols =
        some (value.mapError (Interrupt.reportedAt column'), symbols) := by
  match value with
  | .ok x =>
    -- the end of the line, whose column is not reported
    obtain ⟨remark, hdone⟩ := Progress.exists_done_of_verdict? h
    obtain rfl := eq_endOfLine_of_done hdone
    obtain ⟨remark', hdone'⟩ : ∃ remark', e.feed .endOfLine column' = .done x symbols remark' :=
      feed_endOfLine_eq_done_iff.mpr (feed_endOfLine_eq_done_iff.mp ⟨remark, hdone⟩)
    rw [hdone']
    exact ⟨rfl, rfl⟩
  | .error i =>
    obtain ⟨hstopped, rfl⟩ := Progress.eq_stopped_of_verdict? h
    have hrefuses := refuses_of_feed hstopped
    rw [(hrefuses.reportedAt column').feed_eq]
    exact ⟨congrArg Except.error hrefuses.reportedAt_eq.symm, rfl⟩

/-- **Lines of the same tokens are settled by the same token**, in the same place. -/
theorem Settles.of_map_fst_eq {line line' accepted behind : List (Token × Nat)}
    (h : Settles e line accepted e' t column behind)
    (hsame : line'.map Prod.fst = line.map Prod.fst) :
    ∃ accepted' column' behind', Settles e line' accepted' e' t column' behind' ∧
      accepted'.length = accepted.length := by
  obtain ⟨rfl, hadvance, haccept⟩ := h
  rw [List.map_append, List.map_cons] at hsame
  obtain ⟨accepted', more, rfl, haccepted, hmore⟩ := List.map_eq_append_iff.mp hsame
  obtain ⟨⟨u, column'⟩, behind', rfl, hu, -⟩ := List.map_eq_cons_iff.mp hmore
  obtain rfl : u = t := hu
  have hlength := congrArg List.length haccepted
  rw [List.length_map, List.length_map] at hlength
  exact ⟨accepted', column', behind', ⟨rfl, by rw [haccepted, hadvance], haccept⟩, hlength⟩

/-- The token that settles a line stands behind those that are accepted. -/
theorem Settles.getElem?_eq {pending accepted behind : List (Token × Nat)}
    (h : Settles e pending accepted e' t column behind) :
    pending[accepted.length]? = some (t, column) := by
  rw [h.line_eq]
  simp

end Evaluation

/-! ## Texts that differ in blanks -/

/-- **The texts before and behind blanks are cut by themselves.** -/
theorem textTokens_append_blanks {bs : List Char} (hne : bs ≠ []) (hbs : ∀ b ∈ bs, isBlank b = true)
    (before behind : List Char) :
    textTokens (before ++ (bs ++ behind)) = textTokens before ++ textTokens behind := by
  induction before using text_induction with
  | blank cs hcs =>
    rw [textTokens_append_of_blank hcs, textTokens_append_of_blank hbs,
      textTokens_of_blank (List.dropWhile_eq_nil_iff.mpr hcs), List.nil_append]
  | token cs t rest hcs ht hstop ih =>
    have hstop' : t.Stops (rest ++ (bs ++ behind)) := by
      cases rest with
      | nil =>
        obtain ⟨b, bs, rfl⟩ := List.exists_cons_of_ne_nil hne
        exact t.stops_of_isBlank (hbs b List.mem_cons_self) _
      | cons c rest => cases t <;> exact hstop
    rw [List.append_assoc, List.append_assoc, textTokens_append hcs ht hstop', ih,
      textTokens_append hcs ht hstop, List.cons_append]

namespace LineCursor

theorem tokens_ofLine (text : List Char) : (ofLine text).tokens = textTokens text := by
  rw [tokens_of_not_isFinished rfl, map_token_lexemes]
  rfl

/-- **Any run of blanks separates as well as any other**, if neither is empty. -/
theorem tokens_replace_blanks {bs bs' : List Char} (hne : bs ≠ []) (hne' : bs' ≠ [])
    (hbs : ∀ b ∈ bs, isBlank b = true) (hbs' : ∀ b ∈ bs', isBlank b = true)
    (before behind : List Char) :
    (ofLine (before ++ (bs ++ behind))).tokens = (ofLine (before ++ (bs' ++ behind))).tokens := by
  rw [tokens_ofLine, tokens_ofLine, textTokens_append_blanks hne hbs,
    textTokens_append_blanks hne' hbs']

/-- **Blanks at either end add no token.** -/
theorem tokens_surround_blanks {bs bs' : List Char} (hbs : ∀ b ∈ bs, isBlank b = true)
    (hbs' : ∀ b ∈ bs', isBlank b = true) (text : List Char) :
    (ofLine (bs ++ (text ++ bs'))).tokens = (ofLine text).tokens := by
  rw [tokens_ofLine, tokens_ofLine, textTokens_append_of_blank hbs]
  by_cases hne : bs' = []
  · rw [hne, List.append_nil]
  · have hsplit := textTokens_append_blanks hne hbs' text []
    have hnil : textTokens [] = [] := textTokens_of_blank rfl
    rwa [List.append_nil, hnil, List.append_nil] at hsplit

end LineCursor

namespace Session

open Evaluation

/-- **Lines of the same tokens have the same outcome**, but for the column that is reported, which
is that of the same token in each of them. They leave the same values. -/
theorem lineValue_of_tokens_eq {s s' : Session} {r r' : TokenReader}
    (hready : s.reader.ready = (.ok (), r)) (hready' : s'.reader.ready = (.ok (), r'))
    (hsymbols : s.symbols = s'.symbols) (htokens : r.line.tokens = r'.line.tokens) :
    s.lineValue.2.symbols = s'.lineValue.2.symbols ∧
      ∃ (outcome : Except Interrupt Float) (n : Nat) (t : Token) (column column' : Nat),
        r.line.pending[n]? = some (t, column) ∧ r'.line.pending[n]? = some (t, column') ∧
        s.lineValue.1 = outcome.mapError (Interrupt.reportedAt column) ∧
        s'.lineValue.1 = outcome.mapError (Interrupt.reportedAt column') := by
  have hsame : r'.line.pending.map Prod.fst = r.line.pending.map Prod.fst := by
    rw [LineCursor.map_fst_pending (TokenReader.not_isFinished_of_ready hready),
      LineCursor.map_fst_pending (TokenReader.not_isFinished_of_ready hready'), htokens]
  obtain ⟨accepted, e, t, column, behind, hsettles, -, hverdict⟩ := lineValue_settles hready
  obtain ⟨accepted', column', behind', hsettles', hlength⟩ := hsettles.of_map_fst_eq hsame
  have hat' := hsettles'.getElem?_eq
  rw [hsymbols] at hsettles'
  obtain ⟨-, hverdict'⟩ := lineValue_of_settles hready' hsettles'
  obtain ⟨hvalue, hmoved⟩ := verdict?_reportedAt hverdict column'
  obtain ⟨hvalue', hsymbols'⟩ := Prod.mk.inj (Option.some.inj (hmoved.symm.trans hverdict'))
  exact ⟨hsymbols', s.lineValue.1, accepted.length, t, column, column', hsettles.getElem?_eq,
    hlength ▸ hat', hvalue, hvalue'.symm⟩

/-- **Blanks never change what a line means.** Lines that are cut into the same tokens have the same
value, end the session alike or fail for the same reason, at the column that the same token has in
each of them, and leave the same values. And they are cut into the same tokens if a run of blanks is
replaced by another, or blanks are added at either end. -/
theorem blanks_invisible :
    (∀ (s s' : Session) (r r' : TokenReader), s.reader.ready = (.ok (), r) →
      s'.reader.ready = (.ok (), r') → s.symbols = s'.symbols → r.line.tokens = r'.line.tokens →
        s.lineValue.2.symbols = s'.lineValue.2.symbols ∧
        ∃ (outcome : Except Interrupt Float) (n : Nat) (t : Token) (column column' : Nat),
          r.line.pending[n]? = some (t, column) ∧ r'.line.pending[n]? = some (t, column') ∧
          s.lineValue.1 = outcome.mapError (Interrupt.reportedAt column) ∧
          s'.lineValue.1 = outcome.mapError (Interrupt.reportedAt column')) ∧
    (∀ before bs bs' behind : List Char, bs ≠ [] → bs' ≠ [] → (∀ b ∈ bs, isBlank b = true) →
      (∀ b ∈ bs', isBlank b = true) → (LineCursor.ofLine (before ++ (bs ++ behind))).tokens =
        (LineCursor.ofLine (before ++ (bs' ++ behind))).tokens) ∧
    ∀ bs text bs' : List Char, (∀ b ∈ bs, isBlank b = true) → (∀ b ∈ bs', isBlank b = true) →
      (LineCursor.ofLine (bs ++ (text ++ bs'))).tokens = (LineCursor.ofLine text).tokens :=
  ⟨fun _ _ _ _ => lineValue_of_tokens_eq,
    fun before _ _ behind hne hne' hbs hbs' =>
      LineCursor.tokens_replace_blanks hne hne' hbs hbs' before behind,
    fun _ text _ hbs hbs' => LineCursor.tokens_surround_blanks hbs hbs' text⟩

/-- The line `1 +` means the same with tabs in place of its blank and with a blank before and behind
it. -/
theorem blanks_invisible_lines :
    let s (line : String) : Session := ⟨.holding line.toList, ∅⟩
    (s "1 +").lineValue.2.symbols = (s " 1\t\t+ ").lineValue.2.symbols ∧
      ∃ (outcome : Except Interrupt Float) (n : Nat) (t : Token) (column column' : Nat),
        [(Token.number "1", 1), (.operator (.binary .add), 3), (.endOfLine, 4)][n]? =
          some (t, column) ∧
        [(Token.number "1", 2), (.operator (.binary .add), 5), (.endOfLine, 7)][n]? =
          some (t, column') ∧
        (s "1 +").lineValue.1 = outcome.mapError (Interrupt.reportedAt column) ∧
        (s " 1\t\t+ ").lineValue.1 = outcome.mapError (Interrupt.reportedAt column') := by
  intro s
  obtain ⟨hsame, hreplace, hsurround⟩ := blanks_invisible
  have hblank : ∀ b ∈ [' '], isBlank b = true := by simp [isBlank]
  have htokens : (s "1 +").reader.line.tokens = (s " 1\t\t+ ").reader.line.tokens :=
    calc (s "1 +").reader.line.tokens
        = (s "1\t\t+").reader.line.tokens :=
          hreplace ['1'] [' '] ['\t', '\t'] ['+'] (by simp) (by simp) hblank (by simp [isBlank])
      _ = (s " 1\t\t+ ").reader.line.tokens :=
          (hsurround [' '] ['1', '\t', '\t', '+'] [' '] hblank hblank).symm
  have hline : (s "1 +").reader.line.pending =
      [(.number "1", 1), (.operator (.binary .add), 3), (.endOfLine, 4)] := by
    decide +kernel
  have hline' : (s " 1\t\t+ ").reader.line.pending =
      [(.number "1", 2), (.operator (.binary .add), 5), (.endOfLine, 7)] := by
    decide +kernel
  rw [← hline, ← hline']
  exact hsame (s "1 +") (s " 1\t\t+ ") _ _ (TokenReader.ready_holding _)
    (TokenReader.ready_holding _) rfl htokens

end Session

end StackCalculator
