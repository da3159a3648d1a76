import StackCalculator.Proofs.Renaming
import StackCalculator.Proofs.Viability

/-!
# Sessions over renamed texts

A session over a renamed text is the session over the text, renamed. Names are compared with one
another and with `exit`, looked up, and tried as numbers, and a renaming is visible to none of
these. So token by token the two evaluations hold the same values, under names that differ by the
renaming alone. A line has the same value or is interrupted by the same token for the same reason;
only the column of that token may differ, because names differ in length.

## Main definitions

* `SymbolTable.Renamed ρ`, `Evaluation.Renamed ρ`, `LineCursor.Renamed ρ`, `TokenReader.Renamed ρ`,
  `Session.Renamed ρ`: what differs by a renaming alone
* `RenamedOutcome ρ pending pending'`: outcomes of two lines that differ by a renaming alone
* `Session.RenamedStep ρ`: the next steps of two sessions differ by a renaming alone

## Main results

* `Evaluation.Accepts.renamed`, `Evaluation.Refuses.renamed`: a renamed token is accepted or refused
  alike
* `Session.restValue_renamed`: a renamed line has the same outcome
* `Session.Renamed.step`: a step of renamed sessions
* `Session.renaming_invisible`: sessions over a text and over the renamed text
-/

namespace StackCalculator

variable {ρ : Renaming}

/-! ## Symbol tables -/

namespace SymbolTable

/-- **A table with its names renamed.** The entries under other texts are the same. -/
structure Renamed (ρ : Renaming) (t t' : SymbolTable) : Prop where
  names : ∀ x : Name, t'[(ρ.perm x).val]? = t[x.val]?
  others : ∀ text : String, ¬ (Token.identifier text).Shaped → t'[text]? = t[text]?

variable {t t' : SymbolTable}

theorem renamed_iff : t.Renamed ρ t' ↔ ∀ text : String, t'[ρ.rename text]? = t[text]? := by
  constructor
  · intro h text
    by_cases hname : (Token.identifier text).Shaped
    · rw [ρ.rename_name ⟨text, hname⟩]
      exact h.names ⟨text, hname⟩
    · rw [ρ.rename_of_not_shaped hname]
      exact h.others text hname
  · intro h
    refine ⟨fun x => ?_, fun text hname => ?_⟩
    · rw [← ρ.rename_name]
      exact h x.val
    · rw [← h text, ρ.rename_of_not_shaped hname]

theorem Renamed.value_eq (h : t.Renamed ρ t') (name : String) :
    t'.value (ρ.rename name) = t.value name := by
  rw [value, value, renamed_iff.mp h name]

theorem Renamed.read (h : t.Renamed ρ t') (name : String) :
    (t.read name).Renamed ρ (t'.read (ρ.rename name)) := by
  apply renamed_iff.mpr
  intro text
  rw [getElem?_read, getElem?_read, h.value_eq, renamed_iff.mp h text]
  simp only [ρ.rename.injective.eq_iff]

theorem Renamed.insert (h : t.Renamed ρ t') (name : String) (x : Float) :
    Renamed ρ (Std.ExtTreeMap.insert t name x) (Std.ExtTreeMap.insert t' (ρ.rename name) x) := by
  apply renamed_iff.mpr
  intro text
  rw [Std.ExtTreeMap.getElem?_insert, Std.ExtTreeMap.getElem?_insert, renamed_iff.mp h text]
  simp only [Std.LawfulEqCmp.compare_eq_iff_eq, ρ.rename.injective.eq_iff]

end SymbolTable

/-! ## Tokens -/

/-- **A token that a line can give**: one of a shape, or the end of the line. -/
def Token.Given (t : Token) : Prop :=
  t.Shaped ∨ t = .endOfLine

/-- The text of a renamed token is the renamed text. -/
theorem Token.Given.text?_token {t : Token} (h : t.Given) :
    (ρ.token t).text? = t.text?.map ρ.rename := by
  cases t with
  | number text =>
    have hname : ¬ (Token.identifier text).Shaped := by
      rcases h with h | h
      · exact Token.not_shaped_identifier_of_number h
      · cases h
    exact congrArg some (ρ.rename_of_not_shaped hname).symm
  | identifier | operator | invalid | endOfLine => rfl

/-- **Outcomes of two lines that differ by a renaming alone**: the same value, the same fault of the
token that stands in the same place, a text that is no number and is renamed, or the same end of the
session. -/
inductive RenamedOutcome (ρ : Renaming) (pending pending' : List (Token × Nat)) :
    Except Interrupt Float → Except Interrupt Float → Prop
  | value (x : Float) : RenamedOutcome ρ pending pending' (.ok x) (.ok x)
  | failed {n column column' : Nat} {t : Token} {fault : Fault} (h : pending[n]? = some (t, column))
      (h' : pending'[n]? = some (ρ.token t, column')) :
      RenamedOutcome ρ pending pending' (.error (.failed ⟨fault, column⟩))
        (.error (.failed ⟨fault, column'⟩))
  | invalidNumber {n column column' : Nat} {t : Token} {text : String}
      (h : pending[n]? = some (t, column)) (h' : pending'[n]? = some (ρ.token t, column'))
      (ht : t.text? = some text) :
      RenamedOutcome ρ pending pending' (.error (.fatal (.invalidNumber text column)))
        (.error (.fatal (.invalidNumber (ρ.rename text) column')))
  | ended (ending : Ending) :
      RenamedOutcome ρ pending pending' (.error (.ended ending)) (.error (.ended ending))
  | broken (reason : String) :
      RenamedOutcome ρ pending pending' (.error (.fatal (.stream reason)))
        (.error (.fatal (.stream reason)))

namespace Evaluation

/-- **Evaluations that differ by a renaming alone.** -/
structure Renamed (ρ : Renaming) (e e' : Evaluation) : Prop where
  symbols : e.symbols.Renamed ρ e'.symbols
  stack : e'.stack = e.stack
  afterOperator : e'.afterOperator = e.afterOperator
  lastName : e'.lastName = ρ.rename e.lastName
  target : e'.target = ρ.rename e.target
  assigning : e'.assigning = e.assigning

/-- Lines begin with the same names, which no renaming changes. -/
theorem renamed_start {symbols symbols' : SymbolTable} (h : symbols.Renamed ρ symbols') :
    (start symbols).Renamed ρ (start symbols') where
  symbols := h
  stack := rfl
  afterOperator := rfl
  lastName := (ρ.rename_of_not_shaped (by rintro ⟨c, cs, h, -⟩; cases h)).symm
  target := (ρ.rename_of_reserved (.inl rfl)).symm
  assigning := rfl

variable {e e' e₁ : Evaluation} {t : Token}

/-- **A renamed token is accepted alike.** -/
theorem Accepts.renamed (haccepts : Accepts e t e₁) (h : e.Renamed ρ e') (ht : t.Given) :
    ∃ e₁', Accepts e' (ρ.token t) e₁' ∧ e₁.Renamed ρ e₁' := by
  cases haccepts with
  | @target t text x ha htext hx =>
    have htext' : (ρ.token t).text? = some (ρ.rename text) := by
      rw [ht.text?_token, htext, Option.map_some]
    refine ⟨_, .target (h.assigning.trans ha) htext' ((ρ.read?_rename text).trans hx), ?_⟩
    refine ⟨?_, congrArg (x :: ·) h.stack, h.afterOperator, h.lastName, rfl, rfl⟩
    have hinsert := h.symbols.insert e.lastName x
    rw [← h.lastName] at hinsert
    exact hinsert
  | @number text x ha ho hx =>
    refine ⟨_, .number (h.assigning.trans ha) (h.afterOperator.trans ho) hx, ?_⟩
    exact ⟨h.symbols, congrArg (x :: ·) h.stack, rfl, h.lastName, h.target, h.assigning⟩
  | @identifier name ha ho hne =>
    have hne' : ρ.rename name ≠ exitName :=
      (not_congr (ρ.rename_eq_iff_of_reserved (.inr (.inl rfl)))).mpr hne
    refine ⟨_, .identifier (h.assigning.trans ha) (h.afterOperator.trans ho) hne', ?_⟩
    exact ⟨h.symbols.read name, congrArg₂ List.cons (h.symbols.value_eq name) h.stack, rfl, rfl,
      h.target, h.assigning⟩
  | negate ha hs =>
    refine ⟨_, .negate (h.assigning.trans ha) (h.stack.trans hs), ?_⟩
    exact ⟨h.symbols, rfl, rfl, h.lastName, h.target, h.assigning⟩
  | binary ha hs hx =>
    refine ⟨_, .binary (h.assigning.trans ha) (h.stack.trans hs) hx, ?_⟩
    exact ⟨h.symbols, rfl, rfl, h.lastName, h.target, h.assigning⟩
  | assign ha hs =>
    refine ⟨_, .assign (h.assigning.trans ha) (h.stack.trans hs), ?_⟩
    exact ⟨h.symbols, rfl, h.afterOperator, h.lastName, h.target, rfl⟩

/-- **A renamed token is refused alike**, in the same place of its line. -/
theorem Refuses.renamed {column column' n : Nat} {i : Interrupt}
    {pending pending' : List (Token × Nat)} (hrefuses : Refuses e column t i) (h : e.Renamed ρ e')
    (ht : t.Given) (hline : pending[n]? = some (t, column))
    (hline' : pending'[n]? = some (ρ.token t, column')) :
    ∃ i', Refuses e' column' (ρ.token t) i' ∧
      RenamedOutcome ρ pending pending' (.error i) (.error i') := by
  cases hrefuses with
  | missingText ha htext =>
    have htext' : (ρ.token t).text? = none := by
      rw [ht.text?_token, htext, Option.map_none]
    exact ⟨_, .missingText (h.assigning.trans ha) htext', .failed hline hline'⟩
  | @invalidTarget t text ha htext hx =>
    have htext' : (ρ.token t).text? = some (ρ.rename text) := by
      rw [ht.text?_token, htext, Option.map_some]
    exact ⟨_, .invalidTarget (h.assigning.trans ha) htext' ((ρ.read?_rename text).trans hx),
      .invalidNumber hline hline' htext⟩
  | numberAfterOperator ha ho =>
    exact ⟨_, .numberAfterOperator (h.assigning.trans ha) (h.afterOperator.trans ho),
      .failed hline hline'⟩
  | @invalidNumber text ha ho hx =>
    have hsame : some text = some (ρ.rename text) := ht.text?_token
    have houtcome := RenamedOutcome.invalidNumber hline hline' rfl
    rw [← Option.some.inj hsame] at houtcome
    exact ⟨_, .invalidNumber (h.assigning.trans ha) (h.afterOperator.trans ho) hx, houtcome⟩
  | nameAfterOperator ha ho =>
    exact ⟨_, .nameAfterOperator (h.assigning.trans ha) (h.afterOperator.trans ho),
      .failed hline hline'⟩
  | exit ha ho =>
    have hexit : ρ.token (.identifier exitName) = .identifier exitName :=
      congrArg Token.identifier (ρ.rename_of_reserved (.inr (.inl rfl)))
    rw [hexit]
    exact ⟨_, .exit (h.assigning.trans ha) (h.afterOperator.trans ho), .ended _⟩
  | missingOperand ha hs =>
    exact ⟨_, .missingOperand (h.assigning.trans ha) (h.stack.trans hs), .failed hline hline'⟩
  | insufficientOperands ha hs =>
    exact ⟨_, .insufficientOperands (h.assigning.trans ha) (h.stack ▸ hs), .failed hline hline'⟩
  | divisionByZero ha hs hz =>
    exact ⟨_, .divisionByZero (h.assigning.trans ha) (h.stack.trans hs) hz, .failed hline hline'⟩
  | noValueToAssign ha hs =>
    exact ⟨_, .noValueToAssign (h.assigning.trans ha) (h.stack.trans hs), .failed hline hline'⟩
  | badToken ha => exact ⟨_, .badToken (h.assigning.trans ha), .failed hline hline'⟩
  | malformedExpression ha hs =>
    exact ⟨_, .malformedExpression (h.assigning.trans ha) (h.stack ▸ hs), .failed hline hline'⟩

/-- **Renamed tokens are accepted alike**, one after the other. -/
theorem advance?_renamed {ts : List Token} (hadvance : e.advance? ts = some e₁) (h : e.Renamed ρ e')
    (hts : ∀ t ∈ ts, t.Given) :
    ∃ e₁', e'.advance? (ts.map ρ.token) = some e₁' ∧ e₁.Renamed ρ e₁' := by
  induction ts generalizing e e' with
  | nil =>
    obtain rfl : e = e₁ := Option.some.inj hadvance
    exact ⟨e', rfl, h⟩
  | cons t ts ih =>
    obtain ⟨e₂, haccept, hadvance⟩ := Option.bind_eq_some_iff.mp hadvance
    obtain ⟨ht, hts⟩ := List.forall_mem_cons.mp hts
    obtain ⟨e₂', haccepts, hrenamed⟩ := (accepts_of_accept? haccept).renamed h ht
    obtain ⟨e₁', hadvance', hrenamed'⟩ := ih hadvance hrenamed hts
    refine ⟨e₁', ?_, hrenamed'⟩
    rw [List.map_cons, advance?_cons, haccepts.accept?, Option.bind_some, hadvance']

/-- A token that settles a line settles it alike after a renaming. -/
theorem verdict_renamed {column column' n : Nat} {pending pending' : List (Token × Nat)}
    {value : Except Interrupt Float} {symbols : SymbolTable}
    (hverdict : (e.feed t column).verdict? e.symbols = some (value, symbols)) (h : e.Renamed ρ e')
    (ht : t.Given) (hline : pending[n]? = some (t, column))
    (hline' : pending'[n]? = some (ρ.token t, column')) :
    ∃ value' symbols', (e'.feed (ρ.token t) column').verdict? e'.symbols = some (value', symbols') ∧
      e'.accept? (ρ.token t) = none ∧ RenamedOutcome ρ pending pending' value value' ∧
      symbols.Renamed ρ symbols' := by
  match value with
  | .ok x =>
    obtain ⟨remark, hdone⟩ := Progress.exists_done_of_verdict? hverdict
    obtain rfl := eq_endOfLine_of_done hdone
    obtain ⟨ha, hs, rfl⟩ := feed_endOfLine_eq_done_iff.mp ⟨remark, hdone⟩
    obtain ⟨remark', hdone'⟩ : ∃ remark', e'.feed .endOfLine column' =
        .done x (e'.symbols.insert e'.target x) remark' :=
      feed_endOfLine_eq_done_iff.mpr ⟨h.assigning.trans ha, h.stack.trans hs, rfl⟩
    have hverdict' : (e'.feed .endOfLine column').verdict? e'.symbols =
        some (.ok x, e'.symbols.insert e'.target x) := by
      rw [hdone']
      rfl
    refine ⟨_, _, hverdict', next?_feed_endOfLine e' 1, .value x, ?_⟩
    rw [h.target]
    exact h.symbols.insert e.target x
  | .error i =>
    obtain ⟨hstopped, rfl⟩ := Progress.eq_stopped_of_verdict? hverdict
    obtain ⟨i', hrefuses, houtcome⟩ := (refuses_of_feed hstopped).renamed h ht hline hline'
    refine ⟨.error i', e'.symbols, ?_, accept?_of_stopped hrefuses.feed_eq, houtcome, h.symbols⟩
    rw [hrefuses.feed_eq]
    rfl

/-- **A renamed line is settled alike**, by the token in the same place. -/
theorem Settles.renamed {pending pending' accepted behind : List (Token × Nat)} {column : Nat}
    {value : Except Interrupt Float} {symbols : SymbolTable}
    (hsettles : Settles e pending accepted e₁ t column behind)
    (hverdict : (e₁.feed t column).verdict? e₁.symbols = some (value, symbols)) (h : e.Renamed ρ e')
    (hgiven : ∀ u ∈ pending.map Prod.fst, u.Given)
    (hline : pending'.map Prod.fst = (pending.map Prod.fst).map ρ.token) :
    ∃ accepted' e₁' column' behind' value' symbols',
      Settles e' pending' accepted' e₁' (ρ.token t) column' behind' ∧
      (e₁'.feed (ρ.token t) column').verdict? e₁'.symbols = some (value', symbols') ∧
      RenamedOutcome ρ pending pending' value value' ∧ symbols.Renamed ρ symbols' ∧
      behind'.map Prod.fst = (behind.map Prod.fst).map ρ.token := by
  obtain ⟨rfl, hadvance, -⟩ := hsettles
  simp only [List.map_append, List.map_cons] at hline hgiven
  obtain ⟨accepted', more, rfl, haccepted, hmore⟩ := List.map_eq_append_iff.mp hline
  obtain ⟨⟨u, column'⟩, behind', rfl, hu, hbehind⟩ := List.map_eq_cons_iff.mp hmore
  obtain rfl : u = ρ.token t := hu
  have hlength : accepted'.length = accepted.length := by
    have := congrArg List.length haccepted
    rwa [List.length_map, List.length_map, List.length_map] at this
  obtain ⟨e₁', hadvance', hrenamed⟩ :=
    advance?_renamed hadvance h fun u hu => hgiven u (List.mem_append_left _ hu)
  rw [← haccepted] at hadvance'
  have hat : (accepted ++ (t, column) :: behind)[accepted.length]? = some (t, column) := by simp
  have hat' : (accepted' ++ (ρ.token t, column') :: behind')[accepted.length]? =
      some (ρ.token t, column') := by
    rw [← hlength]
    simp
  obtain ⟨value', symbols', hverdict', hrefused, houtcome, hsymbols⟩ :=
    verdict_renamed hverdict hrenamed (hgiven t (by simp)) hat hat'
  exact ⟨accepted', e₁', column', behind', value', symbols', ⟨rfl, hadvance', hrefused⟩, hverdict',
    houtcome, hsymbols, hbehind⟩

end Evaluation

/-! ## Lines -/

namespace LineCursor

/-- **Lines that differ by a renaming alone**, from the same token on. -/
structure Renamed (ρ : Renaming) (l l' : LineCursor) : Prop where
  text : l'.text = ρ.text l.text
  pending : l'.pending.map Prod.fst = (l.pending.map Prod.fst).map ρ.token

variable {l l' : LineCursor}

theorem Renamed.isFinished_eq (h : l.Renamed ρ l') : l'.phase.isFinished = l.phase.isFinished := by
  rw [Bool.eq_iff_iff, ← pending_eq_nil_iff, ← pending_eq_nil_iff,
    ← List.map_eq_nil_iff (f := Prod.fst), h.pending, List.map_eq_nil_iff, List.map_eq_nil_iff]

/-- A line and the renamed line begin alike. -/
theorem renamed_ofLine (ρ : Renaming) (text : List Char) :
    (ofLine text).Renamed ρ (ofLine (ρ.text text)) where
  text := rfl
  pending := by
    have hpending : ∀ cs : List Char,
        (ofLine cs).pending.map Prod.fst = textTokens cs ++ [.endOfLine] := by
      intro cs
      obtain ⟨before, column, hpending, hbefore⟩ := exists_pending_eq (l := ofLine cs) rfl
      rw [hpending, List.map_append, hbefore, tokens_of_not_isFinished rfl]
      rfl
    rw [hpending, hpending, ρ.textTokens_text, List.map_append]
    rfl

/-- Dropping the rest leaves nothing to differ. -/
theorem Renamed.dropRest (h : l.Renamed ρ l') : l.dropRest.Renamed ρ l'.dropRest :=
  ⟨h.text, rfl⟩

/-- A line gives its tokens and its end. -/
theorem given_of_mem_pending {t : Token} (ht : t ∈ l.pending.map Prod.fst) : t.Given := by
  cases hl : l.phase.isFinished with
  | true =>
    rw [pending_of_isFinished hl] at ht
    cases ht
  | false =>
    obtain ⟨before, column, hpending, htokens⟩ := exists_pending_eq hl
    rw [hpending, List.map_append, htokens] at ht
    rcases List.mem_append.mp ht with ht | ht
    · exact .inl (shaped_of_mem_tokens hl t ht)
    · exact .inr (List.mem_singleton.mp ht)

end LineCursor

namespace Session

open Evaluation

/-- **A renamed line has the same outcome**, and leaves a renamed line and a renamed table. -/
theorem restValue_renamed {e e' : Evaluation} {r r' : TokenReader} (he : e.Renamed ρ e')
    (hline : r.line.Renamed ρ r'.line) (hr : r.line.phase.isFinished = false) :
    RenamedOutcome ρ r.line.pending r'.line.pending (restValue e r).1 (restValue e' r').1 ∧
      (restValue e r).2.symbols.Renamed ρ (restValue e' r').2.symbols ∧
      (restValue e r).2.reader.line.Renamed ρ (restValue e' r').2.reader.line := by
  obtain ⟨accepted, e₁, t, column, behind, hsettles, hbehind, hverdict⟩ := restValue_settles e r hr
  have hr' : r'.line.phase.isFinished = false := hline.isFinished_eq.trans hr
  obtain ⟨accepted', e₁', column', behind', value', symbols', hsettles', hverdict', houtcome,
    hsymbols, hmore⟩ :=
    hsettles.renamed hverdict he (fun _ => LineCursor.given_of_mem_pending) hline.pending
  obtain ⟨hpending, hsettled⟩ := restValue_of_settles hr' hsettles'
  obtain ⟨rfl, rfl⟩ := Prod.mk.inj (Option.some.inj (hverdict'.symm.trans hsettled))
  refine ⟨houtcome, hsymbols, ⟨?_, ?_⟩⟩
  · obtain ⟨-, -, htext⟩ := restValue_frame e r
    obtain ⟨-, -, htext'⟩ := restValue_frame e' r'
    rw [htext, htext', hline.text]
  · rw [hpending, hbehind, hmore]

/-- The rest of a line is dropped on both sides, or on none. -/
theorem answeredLine_renamed {pending pending' : List (Token × Nat)}
    {value value' : Except Interrupt Float} {l l' : LineCursor}
    (houtcome : RenamedOutcome ρ pending pending' value value') (h : l.Renamed ρ l') :
    (answeredLine l value).Renamed ρ (answeredLine l' value') := by
  cases houtcome with
  | failed => exact h.dropRest
  | value | invalidNumber | ended | broken => exact h

end Session

/-! ## Streams -/

/-- **What an input delivers, renamed.** -/
def Renaming.fetched (ρ : Renaming) : Fetched → Fetched
  | .line text => .line (ρ.text text)
  | fetched => fetched

/-- An input that has the renamed lines delivers them. -/
theorem Input.fetch_renamed {i j : Input} (hlines : j.lines = i.lines.map ρ.text)
    (hfailure : j.failure? = i.failure?) :
    j.fetch.1 = ρ.fetched i.fetch.1 ∧ j.fetch.2.lines = i.fetch.2.lines.map ρ.text := by
  cases hi : i.lines with
  | nil =>
    -- neither input has a line left, and the same stands behind both
    have hj : j.lines = [] := by
      rw [hlines, hi]
      rfl
    obtain ⟨hfetched, -⟩ := fetch_congr (hj.trans hi.symm) fun _ => hfailure
    rw [hfetched, lines_fetch_of_lines_eq_nil hi, lines_fetch_of_lines_eq_nil hj]
    refine ⟨?_, rfl⟩
    rcases fetch_of_lines_eq_nil hi with ⟨-, hf⟩ | ⟨reason, -, hf⟩ <;> rw [hf] <;> rfl
  | cons text more =>
    rw [hi, List.map_cons] at hlines
    obtain ⟨i', hf, -, hmore⟩ := fetch_of_lines_eq_cons hi
    obtain ⟨j', hf', -, hmore'⟩ := fetch_of_lines_eq_cons hlines
    rw [hf, hf']
    exact ⟨rfl, hmore'.trans (congrArg _ hmore.symm)⟩

namespace TokenReader

/-- **Readers that differ by a renaming alone**, without a limit on what they write. -/
structure Renamed (ρ : Renaming) (r r' : TokenReader) : Prop where
  prompt : r'.prompt = r.prompt
  lines : r'.input.lines = r.input.lines.map ρ.text
  failure? : r'.input.failure? = r.input.failure?
  line : r.line.Renamed ρ r'.line
  room? : r.output.room? = none
  room?' : r'.output.room? = none

variable {r r' : TokenReader}

/-- **Being ready for a line** comes to the same for both readers. -/
theorem Renamed.ready (h : r.Renamed ρ r') :
    r'.ready.1 = r.ready.1 ∧ r.ready.2.Renamed ρ r'.ready.2 := by
  simp only [TokenReader.ready, h.line.isFinished_eq]
  split
  · obtain ⟨hfetched, hlines⟩ := Input.fetch_renamed h.lines h.failure?
    have hfailure : r'.input.fetch.2.failure? = r.input.fetch.2.failure? := by
      rw [Input.fetch_failure?, Input.fetch_failure?, h.failure?]
    simp only [fetch, write_of_unlimited h.room?, write_of_unlimited h.room?', receive]
    rcases hi : r.input.fetch with ⟨fetched, i⟩
    rcases hj : r'.input.fetch with ⟨fetched', j⟩
    rw [hi, hj] at hfetched hlines hfailure
    obtain rfl : fetched' = ρ.fetched fetched := hfetched
    cases fetched with
    | line text =>
      exact ⟨rfl, h.prompt, hlines, hfailure, LineCursor.renamed_ofLine ρ text, h.room?, h.room?'⟩
    | exhausted | failed => exact ⟨rfl, h.prompt, hlines, hfailure, h.line, h.room?, h.room?'⟩
  · exact ⟨rfl, h⟩

end TokenReader

/-! ## Sessions -/

namespace Session

/-- **Sessions that differ by a renaming alone**, without a limit on what they write. -/
structure Renamed (ρ : Renaming) (s s' : Session) : Prop where
  reader : s.reader.Renamed ρ s'.reader
  symbols : s.symbols.Renamed ρ s'.symbols

variable {s s' : Session}

/-- **The outcomes of renamed lines differ by the renaming alone**, and so do the sessions behind
them. -/
theorem Renamed.lineValue (h : s.Renamed ρ s') :
    RenamedOutcome ρ s.reader.ready.2.line.pending s'.reader.ready.2.line.pending s.lineValue.1
        s'.lineValue.1 ∧
      s.lineValue.2.Renamed ρ s'.lineValue.2 := by
  obtain ⟨hresult, hreader⟩ := h.reader.ready
  rcases hs : s.reader.ready with ⟨i | u, r⟩ <;> rcases hs' : s'.reader.ready with ⟨i' | u', r'⟩ <;>
    rw [hs, hs'] at hresult hreader <;> cases hresult
  · -- there is no line, and the reason for it is no part of the text
    simp only [Session.lineValue, hs, hs']
    refine ⟨?_, hreader, h.symbols⟩
    rcases ready_error_cases hs with ⟨-, ⟨rfl, -⟩ | ⟨reason, rfl⟩⟩
    · exact .ended _
    · exact .broken reason
  · rw [lineValue_of_ready hs, lineValue_of_ready hs']
    obtain ⟨houtcome, hsymbols, hline⟩ := restValue_renamed (Evaluation.renamed_start h.symbols)
      hreader.line (TokenReader.not_isFinished_of_ready hs)
    obtain ⟨hprompt, houtput, -⟩ := restValue_frame (Evaluation.start s.symbols) r
    obtain ⟨hprompt', houtput', -⟩ := restValue_frame (Evaluation.start s'.symbols) r'
    refine ⟨houtcome, ⟨?_, ?_, ?_, hline, ?_, ?_⟩, hsymbols⟩
    · rw [hprompt, hprompt', hreader.prompt]
    · rw [restValue_input, restValue_input, hreader.lines]
    · rw [restValue_input, restValue_input, hreader.failure?]
    · rw [houtput, hreader.room?]
    · rw [houtput', hreader.room?']

/-- **A step of renamed sessions** leaves renamed sessions. -/
theorem Renamed.step (h : s.Renamed ρ s') : s.step.2.Renamed ρ s'.step.2 := by
  obtain ⟨houtcome, hbehind⟩ := h.lineValue
  obtain ⟨-, houtput, hline, hprompt⟩ := step_of_unlimited h.reader.room?
  obtain ⟨-, houtput', hline', hprompt'⟩ := step_of_unlimited h.reader.room?'
  refine ⟨⟨?_, ?_, ?_, ?_, ?_, ?_⟩, ?_⟩
  · rw [hprompt, hprompt', h.reader.prompt]
  · rw [step_reader_input, step_reader_input, hbehind.reader.lines]
  · rw [step_failure?, step_failure?, h.reader.failure?]
  · rw [hline, hline']
    exact answeredLine_renamed houtcome hbehind.reader.line
  · rw [houtput]
    exact h.reader.room?
  · rw [houtput']
    exact h.reader.room?'
  · rw [step_symbols, step_symbols]
    exact hbehind.symbols

/-- Renamed sessions stay so. -/
theorem Renamed.after (h : s.Renamed ρ s') (n : Nat) : (s.after n).Renamed ρ (s'.after n) := by
  induction n with
  | zero => exact h
  | succ n ih => exact ih.step

/-- **The next steps of two sessions differ by a renaming alone**: the tokens at hand are renamed,
their outcome corresponds, and what is written is the answer to it, behind the same prompt, with the
renamed line where the answer shows the line. -/
structure RenamedStep (ρ : Renaming) (s s' : Session) : Prop where
  tokens : s'.reader.ready.2.line.pending.map Prod.fst =
    (s.reader.ready.2.line.pending.map Prod.fst).map ρ.token
  outcome : RenamedOutcome ρ s.reader.ready.2.line.pending s'.reader.ready.2.line.pending
    s.lineValue.1 s'.lineValue.1
  result : s.step.1 = answerResult s.lineValue.1
  result' : s'.step.1 = answerResult s'.lineValue.1
  text : s'.lineValue.2.reader.line.text = ρ.text s.lineValue.2.reader.line.text
  written : s.step.2.reader.output = s.reader.output.extend
    (s.promptText ++ answerText s.lineValue.2.reader.line.text s.lineValue.1)
  written' : s'.step.2.reader.output = s'.reader.output.extend
    (s.promptText ++ answerText s'.lineValue.2.reader.line.text s'.lineValue.1)

theorem Renamed.renamedStep (h : s.Renamed ρ s') : RenamedStep ρ s s' := by
  obtain ⟨houtcome, hbehind⟩ := h.lineValue
  obtain ⟨-, hready⟩ := h.reader.ready
  obtain ⟨hresult, houtput, -⟩ := step_of_unlimited h.reader.room?
  obtain ⟨hresult', houtput', -⟩ := step_of_unlimited h.reader.room?'
  have hprompt : s'.promptText = s.promptText := by
    rw [promptText, promptText, h.reader.line.isFinished_eq, h.reader.prompt]
  rw [hprompt] at houtput'
  exact ⟨hready.line.pending, houtcome, hresult, hresult', hbehind.reader.line.text, houtput,
    houtput'⟩

/-! ## Whole runs -/

/-- Two sessions both go on after corresponding outcomes, or neither does. -/
theorem answerResult_renamed {pending pending' : List (Token × Nat)}
    {value value' : Except Interrupt Float} (h : RenamedOutcome ρ pending pending' value value') :
    answerResult value = .ok none ↔ answerResult value' = .ok none := by
  cases h with
  | value | failed => exact ⟨fun _ => rfl, fun _ => rfl⟩
  | invalidNumber | ended | broken => simp [answerResult]

/-- **Renamed sessions go on equally long.** -/
theorem Renamed.step_eq_none_iff (h : s.Renamed ρ s') (n : Nat) :
    (s.after n).step.1 = .ok none ↔ (s'.after n).step.1 = .ok none := by
  obtain ⟨-, houtcome, hresult, hresult', -⟩ := (h.after n).renamedStep
  rw [hresult, hresult']
  exact answerResult_renamed houtcome

/-- **Renamed sessions run to the same step**, which ends both of them. -/
theorem Renamed.run (h : s.Renamed ρ s') :
    ∃ n, s.steps = n + 1 ∧ s'.steps = n + 1 ∧ outcome? (s.after n).step.1 = some s.run.1 ∧
      outcome? (s'.after n).step.1 = some s'.run.1 ∧
      s.run.2.symbols.Renamed ρ s'.run.2.symbols := by
  obtain ⟨n, hsteps, hgoes, hlast, hsymbols⟩ := s.exists_last_step
  obtain ⟨n', hsteps', hgoes', hlast', hsymbols'⟩ := s'.exists_last_step
  have hend : (s.after n).step.1 ≠ .ok none := fun hnone => by
    rw [hnone] at hlast
    cases hlast
  have hend' : (s'.after n').step.1 ≠ .ok none := fun hnone => by
    rw [hnone] at hlast'
    cases hlast'
  -- neither run has its last step where the other goes on
  obtain rfl : n = n' := by
    rcases Nat.lt_trichotomy n n' with hlt | heq | hlt
    · exact absurd ((h.step_eq_none_iff n).mpr (hgoes' n hlt)) hend
    · exact heq
    · exact absurd ((h.step_eq_none_iff n').mp (hgoes n' hlt)) hend'
  rw [hsymbols, hsymbols']
  exact ⟨n, hsteps, hsteps', hlast, hlast', (h.after (n + 1)).symbols⟩

/-- A session over a text and one over the renamed text begin alike, on tables that do. -/
theorem renamed_fresh {bytes bytes' : List UInt8} {symbols symbols' : SymbolTable} (prompt : String)
    (failure? : Option String) (hbytes : Utf8.decode bytes' = ρ.text (Utf8.decode bytes))
    (hsymbols : symbols.Renamed ρ symbols') :
    (fresh prompt ⟨bytes, failure?⟩ symbols).Renamed ρ
      (fresh prompt ⟨bytes', failure?⟩ symbols') where
  reader :=
    { prompt := rfl
      lines := by
        show Input.lines ⟨bytes', failure?⟩ = (Input.lines ⟨bytes, failure?⟩).map ρ.text
        rw [Input.lines_eq_textLines, Input.lines_eq_textLines, hbytes, ρ.textLines_text]
      failure? := rfl
      line := ⟨ρ.text_nil.symm, rfl⟩
      room? := rfl
      room?' := rfl }
  symbols := hsymbols

/-- **Names matter only through equality.** Over a text with its names renamed, a session takes the
steps that it takes over the text. Each has the same value, or the same fault at the token in the
same place, or breaks the session down over the same text, renamed if it is a name; the lines shown
are the renamed lines. The two runs come to their end with the same step, and their tables hold the
same values, under renamed names and under the same texts that are no names. -/
theorem renaming_invisible (ρ : Renaming) {bytes bytes' : List UInt8}
    {symbols symbols' : SymbolTable} (prompt : String) (failure? : Option String)
    (hbytes : Utf8.decode bytes' = ρ.text (Utf8.decode bytes))
    (hsymbols : symbols.Renamed ρ symbols') :
    let s := fresh prompt ⟨bytes, failure?⟩ symbols
    let s' := fresh prompt ⟨bytes', failure?⟩ symbols'
    s'.reader.input.lines = s.reader.input.lines.map ρ.text ∧
      (∀ n, RenamedStep ρ (s.after n) (s'.after n) ∧
        (s.after n).symbols.Renamed ρ (s'.after n).symbols) ∧
      ∃ n, s.steps = n + 1 ∧ s'.steps = n + 1 ∧ outcome? (s.after n).step.1 = some s.run.1 ∧
        outcome? (s'.after n).step.1 = some s'.run.1 ∧
        s.run.2.symbols.Renamed ρ s'.run.2.symbols := by
  intro s s'
  have h : s.Renamed ρ s' := renamed_fresh prompt failure? hbytes hsymbols
  exact ⟨h.reader.lines, fun n => ⟨(h.after n).renamedStep, (h.after n).symbols⟩, h.run⟩

/-- Over two lines in which `x` is renamed to `rate`, the second line is divided by zero at a later
column. -/
theorem renaming_invisible_swap :
    let ρ : Renaming := .swap ⟨"x", by decide +kernel⟩ ⟨"rate", by decide +kernel⟩
      (by decide +kernel) (by decide +kernel)
    let s := fresh "" ⟨Utf8.encode "x = 5\nx 0 /\n".toList, none⟩ ∅
    let s' := fresh "" ⟨Utf8.encode "rate = 5\nrate 0 /\n".toList, none⟩ ∅
    (s.after 1).lineValue.1 = .error (.failed ⟨.divisionByZero, 5⟩) ∧
      (s'.after 1).lineValue.1 = .error (.failed ⟨.divisionByZero, 8⟩) ∧
      RenamedStep ρ (s.after 1) (s'.after 1) ∧ s'.steps = s.steps ∧
      s'.run.2.symbols["rate"]? = s.run.2.symbols["x"]? := by
  intro ρ s s'
  have hbytes : Utf8.decode (Utf8.encode "rate = 5\nrate 0 /\n".toList) =
      ρ.text (Utf8.decode (Utf8.encode "x = 5\nx 0 /\n".toList)) := by
    rw [Utf8.decode_encode, Utf8.decode_encode]
    decide +kernel
  have hempty : SymbolTable.Renamed ρ ∅ ∅ := ⟨fun _ => rfl, fun _ _ => rfl⟩
  obtain ⟨-, hsteps, n, hcount, hcount', -, -, hsymbols⟩ :=
    renaming_invisible ρ "" none hbytes hempty
  refine ⟨by decide +kernel, by decide +kernel, (hsteps 1).1, hcount'.trans hcount.symm, ?_⟩
  have hrate : ρ.rename "x" = "rate" := by decide +kernel
  rw [← hrate]
  exact SymbolTable.renamed_iff.mp hsymbols "x"

end Session

end StackCalculator
