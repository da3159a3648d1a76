import StackCalculator.Proofs.Answers
import StackCalculator.Proofs.Viability

/-!
# Culprits

A line that fails is reported with the column of the token that shows the fault, and the line that
is shown with the report has that token at that column, whatever characters stand in it and wherever
the step began. So the character above the caret is the one that the fault is about.

## Main definitions

* `LineCursor.Sound`, `Session.Sound`: what holds of every line that a session has read
* `Fault.PointsAt text column`: what stands at the column of a fault
* `Session.Reports`: the report of a line that failed

## Main results

* `LineCursor.Sound.exists_cut`: a token that is pending stands at its column, right behind the
  token before it but for blanks
* `Session.sound_after`: every session is sound, after any steps
* `Session.after_reports`: every report points at the culprit
-/

namespace StackCalculator

/-! ## Where tokens stand -/

/-- **What a text is cut into by a token**: what stands before it up to the blanks right before it,
these blanks, and what stands behind it. -/
structure Cut (text : List Char) (t : Token) (front blanks behind : List Char) : Prop where
  text_eq : text = front ++ (blanks ++ (t.written ++ behind))
  isBlank : ∀ c ∈ blanks, isBlank c = true
  behind_eq : t = .endOfLine → behind = []

theorem Cut.append {text front blanks behind : List Char} {t : Token}
    (h : Cut text t front blanks behind) (ahead : List Char) :
    Cut (ahead ++ text) t (ahead ++ front) blanks behind :=
  ⟨by rw [h.text_eq, List.append_assoc], h.isBlank, h.behind_eq⟩

section Cut

variable {text front blanks behind : List Char} {t : Token} {column : Nat}

/-- The text of a token stands at its column. -/
theorem Cut.isPrefix (h : Cut text t front blanks behind)
    (hcolumn : column = front.length + blanks.length + 1) :
    t.written <+: text.drop (column - 1) := by
  have hdrop : column - 1 = (front ++ blanks).length := by
    rw [hcolumn, List.length_append, Nat.add_sub_cancel]
  rw [h.text_eq, ← List.append_assoc, hdrop, List.drop_left]
  exact List.prefix_append _ _

/-- The first character of a token stands at its column. -/
theorem Cut.getElem?_eq (h : Cut text t front blanks behind)
    (hcolumn : column = front.length + blanks.length + 1) {c : Char} {cs : List Char}
    (ht : t.written = c :: cs) : text[column - 1]? = some c := by
  obtain ⟨rest, hrest⟩ := h.isPrefix hcolumn
  rw [ht, List.cons_append] at hrest
  rw [← List.head?_drop, ← hrest]
  rfl

theorem Cut.length_eq (h : Cut text t front blanks behind)
    (hcolumn : column = front.length + blanks.length + 1) :
    text.length + 1 = column + (t.written.length + behind.length) := by
  have hlength := congrArg List.length h.text_eq
  simp only [List.length_append] at hlength
  omega

/-- The end of the line stands behind its last character. -/
theorem Cut.column_of_endOfLine (h : Cut text .endOfLine front blanks behind)
    (hcolumn : column = front.length + blanks.length + 1) : column = text.length + 1 := by
  rw [h.length_eq hcolumn, h.behind_eq rfl]
  rfl

end Cut

/-- The first of the tokens of a text is cut off behind the blanks before it. -/
theorem cut_first (text : List Char) :
    Cut text (Token.first (text.dropWhile isBlank)) [] (text.takeWhile isBlank)
      ((text.dropWhile isBlank).drop (Token.first (text.dropWhile isBlank)).written.length) where
  text_eq := by rw [Token.written_first_append, List.nil_append, List.takeWhile_append_dropWhile]
  isBlank _ hc := List.mem_takeWhile_imp hc
  behind_eq h := by rw [Token.first_eq_endOfLine_iff.mp h, List.drop_nil]

/-- The tokens of a text are its first one and, unless this is the end of the line, those behind
it. -/
theorem lineTokens_eq_cons (position : Nat) (text : List Char) :
    let t := Token.first (text.dropWhile isBlank)
    let start := position + (text.takeWhile isBlank).length
    ∃ more, lineTokens position text = (t, start + 1) :: more ∧
      (more = [] ∨
        more = lineTokens (start + t.written.length)
          ((text.dropWhile isBlank).drop t.written.length)) := by
  intro t start
  by_cases h : text.dropWhile isBlank = []
  · refine ⟨[], ?_, .inl rfl⟩
    rw [lineTokens_of_blank h, ← length_takeWhile_of_dropWhile_eq_nil h,
      show t = .endOfLine from Token.first_eq_endOfLine_iff.mpr h]
  · exact ⟨_, lineTokens_of_ne_nil h, .inr rfl⟩

/-- **Each of the tokens of a text stands at its column**, right behind the token before it but for
blanks. -/
theorem exists_cut_of_lineTokens {before behind : List (Token × Nat)} {t : Token} {column : Nat} :
    ∀ {position : Nat} {text : List Char},
      lineTokens position text = before ++ (t, column) :: behind →
      ∃ front blanks back, Cut text t front blanks back ∧
        column = position + (front.length + blanks.length) + 1 ∧ (before = [] → front = []) ∧
        ∀ x, before.getLast? = some x → x.1.written <:+ front := by
  induction before with
  | nil =>
    intro position text h
    obtain ⟨more, heq, -⟩ := lineTokens_eq_cons position text
    obtain ⟨hfirst, -⟩ := List.cons.inj (heq.symm.trans h)
    obtain ⟨rfl, rfl⟩ := Prod.mk.inj hfirst
    exact ⟨[], _, _, cut_first text, by simp, fun _ => rfl, by simp⟩
  | cons y before ih =>
    intro position text h
    obtain ⟨more, heq, hmore⟩ := lineTokens_eq_cons position text
    obtain ⟨rfl, rfl⟩ := List.cons.inj (heq.symm.trans h)
    rcases hmore with hnone | hmore
    · exact absurd hnone (by simp)
    · obtain ⟨front, blanks, back, hcut, hcolumn, hnone, hlast⟩ := ih hmore.symm
      have htext := (cut_first text).text_eq
      rw [List.nil_append, ← List.append_assoc] at htext
      have hwhole := hcut.append
        (text.takeWhile isBlank ++ (Token.first (text.dropWhile isBlank)).written)
      rw [← htext] at hwhole
      refine ⟨_, blanks, back, hwhole, ?_, by simp, fun x hx => ?_⟩
      · rw [hcolumn]
        simp only [List.length_append]
        omega
      · rcases List.eq_nil_or_concat before with rfl | ⟨before', z, rfl⟩
        · obtain rfl := Option.some.inj hx
          rw [hnone rfl, List.append_nil]
          exact List.suffix_append _ _
        · rw [List.concat_eq_append, ← List.cons_append, List.getLast?_concat] at hx
          obtain rfl := Option.some.inj hx
          refine (hlast z ?_).trans (List.suffix_append _ _)
          rw [List.concat_eq_append, List.getLast?_concat]

namespace LineCursor

/-! ## Lines that are sound -/

/-- **What holds of every line that is read from an input.** -/
structure Sound (l : LineCursor) : Prop where
  cursor_le : l.cursor ≤ l.text.length
  lineFeed_notMem : '\n' ∉ l.text

theorem sound_none : none.Sound :=
  ⟨Nat.le_refl 0, List.not_mem_nil⟩

theorem sound_ofLine {text : List Char} (h : '\n' ∉ text) : (ofLine text).Sound :=
  ⟨Nat.zero_le _, h⟩

theorem Sound.dropRest {l : LineCursor} (h : l.Sound) : l.dropRest.Sound :=
  ⟨Nat.le_refl _, h.lineFeed_notMem⟩

theorem Sound.take {l : LineCursor} (h : l.Sound) : l.take.2.Sound :=
  ⟨cursor_take_le h.cursor_le, h.lineFeed_notMem⟩

/-- **A token that is pending stands at its column** of the line, right behind the token before it
but for blanks. -/
theorem Sound.exists_cut {l : LineCursor} (h : l.Sound)
    {before behind : List (Token × Nat)} {t : Token} {column : Nat}
    (hpending : l.pending = before ++ (t, column) :: behind) :
    ∃ front blanks back, Cut l.text t front blanks back ∧
      column = front.length + blanks.length + 1 ∧
      ∀ x, before.getLast? = some x → x.1.written <:+ front := by
  have hopen : l.phase.isFinished = false := by
    refine eq_false_of_ne_true fun hf => ?_
    rw [pending_of_isFinished hf] at hpending
    exact absurd hpending (by simp)
  rw [pending_of_not_isFinished hopen] at hpending
  obtain ⟨front, blanks, back, hcut, hcolumn, -, hlast⟩ := exists_cut_of_lineTokens hpending
  have hwhole := hcut.append (l.text.take l.cursor)
  rw [rest, List.take_append_drop] at hwhole
  refine ⟨_, blanks, back, hwhole, ?_, fun x hx => (hlast x hx).trans (List.suffix_append _ _)⟩
  rw [hcolumn, List.length_append, List.length_take_of_le h.cursor_le]
  omega

end LineCursor

/-! ## Culprits -/

/-- **What stands at the column of a fault.** -/
def Fault.PointsAt (text : List Char) (column : Nat) : Fault → Prop
  | missingOperand => text[column - 1]? = some '~'
  | insufficientOperands => ∃ c ∈ ['+', '-', '*', '/'], text[column - 1]? = some c
  | divisionByZero => text[column - 1]? = some '/'
  | noValueToAssign => text[column - 1]? = some '='
  | badToken c => text[column - 1]? = some c
  | operandAfterOperator => ∃ c, text[column - 1]? = some c ∧ isNamePart c = true
  | malformedExpression => column = text.length + 1
  -- nothing but blanks stands between `=` and the culprit, which is the end of the line, an
  -- operator, or a character that no token begins with
  | expectedVariableAfterAssign =>
    (column = text.length + 1 ∨
      (∃ op : Operator, text[column - 1]? = some op.symbol) ∨
      ∃ c, text[column - 1]? = some c ∧ (Token.invalid c).Shaped) ∧
    ∃ front blanks, text.take (column - 1) = front ++ '=' :: blanks ∧ ∀ c ∈ blanks, isBlank c = true

open Evaluation in
/-- **A token that fails a line is where the fault points at.** -/
theorem Cut.pointsAt {text front blanks behind : List Char} {t : Token} {column column' : Nat}
    {e : Evaluation} {fault : Fault} (hcut : Cut text t front blanks behind)
    (hcolumn : column = front.length + blanks.length + 1) (ht : t = .endOfLine ∨ t.Shaped)
    (hassign : e.assigning = true → ['='] <:+ front)
    (h : Refuses e column t (.failed ⟨fault, column'⟩)) :
    column' = column ∧ fault.PointsAt text column := by
  cases h with
  | missingText ha htext =>
    refine ⟨rfl, ?_, ?_⟩
    · cases t with
      | number text | identifier text => cases htext
      | operator op => exact .inr (.inl ⟨op, hcut.getElem?_eq hcolumn rfl⟩)
      | invalid c => exact .inr (.inr ⟨c, hcut.getElem?_eq hcolumn rfl, ht.resolve_left (by simp)⟩)
      | endOfLine => exact .inl (hcut.column_of_endOfLine hcolumn)
    · -- `=` is the token taken last, and ends what stands before the blanks
      obtain ⟨front', rfl⟩ := hassign ha
      refine ⟨front', blanks, ?_, hcut.isBlank⟩
      have htake : column - 1 = (front' ++ ['='] ++ blanks).length := by
        simp only [hcolumn, List.length_append]
        omega
      rw [hcut.text_eq, ← List.append_assoc, htake, List.take_left]
      simp
  | numberAfterOperator ha ho =>
    obtain ⟨c, cs, hwritten, hc, -⟩ := ht.resolve_left (by simp)
    exact ⟨rfl, c, hcut.getElem?_eq hcolumn hwritten, by simp [isNamePart, Char.isAlphanum, hc]⟩
  | nameAfterOperator ha ho =>
    obtain ⟨c, cs, hwritten, hc, -⟩ := ht.resolve_left (by simp)
    refine ⟨rfl, c, hcut.getElem?_eq hcolumn hwritten, ?_⟩
    simp only [isNameStart, Bool.or_eq_true] at hc
    rcases hc with hc | hc <;> simp [isNamePart, Char.isAlphanum, hc]
  | missingOperand ha hs => exact ⟨rfl, hcut.getElem?_eq hcolumn rfl⟩
  | @insufficientOperands op ha hs =>
    exact ⟨rfl, op.symbol, by cases op <;> decide, hcut.getElem?_eq hcolumn rfl⟩
  | divisionByZero ha hs hz => exact ⟨rfl, hcut.getElem?_eq hcolumn rfl⟩
  | noValueToAssign ha hs => exact ⟨rfl, hcut.getElem?_eq hcolumn rfl⟩
  | badToken ha => exact ⟨rfl, hcut.getElem?_eq hcolumn rfl⟩
  | malformedExpression ha hs => exact ⟨rfl, hcut.column_of_endOfLine hcolumn⟩

open Evaluation in
/-- A text that is no number is the text of the token that breaks the session down. -/
theorem Evaluation.Refuses.eq_of_invalidNumber {e : Evaluation} {t : Token} {text : String}
    {column column' : Nat} (h : Refuses e column t (.fatal (.invalidNumber text column'))) :
    column' = column ∧ t.written = text.toList := by
  cases h with
  | invalidTarget ha ht =>
    cases t with
    | number | identifier =>
      cases ht
      exact ⟨rfl, rfl⟩
    | operator | invalid | endOfLine => cases ht
  | invalidNumber => exact ⟨rfl, rfl⟩

/-- The message about a fault is one line. -/
theorem Fault.PointsAt.lineFeed_notMem {text : List Char} {column : Nat} {fault : Fault}
    (h : fault.PointsAt text column) (htext : '\n' ∉ text) : '\n' ∉ fault.message.toList := by
  cases fault with
  | badToken c =>
    have hc : '\n' ≠ c := fun he => htext (he ▸ List.mem_of_getElem? h)
    simp [Fault.message, hc]
  | _ => decide

namespace Session

open Evaluation

/-! ## Sessions that are sound -/

/-- **A session that is sound**: its line is, and its output has no limit. -/
structure Sound (s : Session) : Prop where
  line : s.reader.line.Sound
  unlimited : s.reader.output.room? = none

variable {s : Session}

/-- The evaluation of a line keeps it sound. -/
theorem sound_restValue (e : Evaluation) (r : TokenReader) (h : r.line.Sound) :
    (restValue e r).2.reader.line.Sound := by
  fun_induction restValue e r with
  | case1 e r r' e' remark? hfeed ih =>
    refine ih ?_
    rw [TokenReader.noteAny_line]
    exact h.take
  | case2 e r r' x symbols remark hfeed => exact h.take
  | case3 e r r' i hfeed => exact h.take

/-- Lines at hand are sound. -/
theorem Sound.ready (h : s.Sound) : s.reader.ready.2.line.Sound := by
  rw [TokenReader.ready]
  split
  · rw [TokenReader.fetch, TokenReader.write_of_unlimited h.unlimited]
    simp only [TokenReader.receive]
    split
    · next hfetch => exact LineCursor.sound_ofLine (Input.lineFeed_notMem_fetch hfetch)
    · exact h.line
    · exact h.line
  · exact h.line

theorem Sound.of_ready (h : s.Sound) {r : TokenReader} (hready : s.reader.ready = (.ok (), r)) :
    r.line.Sound := by
  have hline := h.ready
  rwa [hready] at hline

theorem Sound.lineValue (h : s.Sound) : s.lineValue.2.reader.line.Sound := by
  have hready := h.ready
  rw [Session.lineValue]
  split
  · next hr =>
    rw [hr] at hready
    exact sound_restValue _ _ hready
  · next hr =>
    rw [hr] at hready
    exact hready

/-- **A step keeps a session sound.** -/
theorem Sound.step (h : s.Sound) : s.step.2.Sound := by
  obtain ⟨-, houtput, hline, -⟩ := step_of_unlimited h.unlimited
  refine ⟨?_, by rw [houtput]; exact h.unlimited⟩
  rw [hline]
  unfold answeredLine
  split
  · exact h.lineValue.dropRest
  · exact h.lineValue

/-- **Every session is sound**, after any steps, if its output has no limit. -/
theorem sound_after (prompt : String) (input : Input) (written : ByteArray) (n : Nat) :
    ((new prompt input ⟨written, none⟩).after n).Sound := by
  induction n with
  | zero => exact ⟨LineCursor.sound_none, rfl⟩
  | succ n ih => exact ih.step

/-! ## Reports -/

/-- **The lines of the report of a line that failed.** -/
def reportLines (line : List Char) (d : Diagnostic) : List String :=
  [d.fault.message, String.ofList line, String.ofList (List.replicate (d.column - 1) ' ') ++ "^",
    "no value"]

/-- **The report of a line that failed** points at the culprit. -/
structure Reports (s : Session) (line : List Char) (d : Diagnostic) : Prop where
  goesOn : s.step.1 = .ok none
  /-- The lines of the report are all that is written behind the prompt, if there is one. -/
  output_eq : s.step.2.reader.output =
    s.reader.output.extend (s.promptText ++ String.join ((reportLines line d).map (· ++ "\n")))
  /-- They are lines indeed. -/
  lineFeed_notMem : ∀ text ∈ reportLines line d, '\n' ∉ text.toList
  one_le : 1 ≤ d.column
  column_le : d.column ≤ line.length + 1
  pointsAt : d.fault.PointsAt line d.column

/-- The answer to a line that failed is its report. -/
theorem answerText_failed (line : List Char) (d : Diagnostic) :
    answerText line (.error (.failed d)) = String.join ((reportLines line d).map (· ++ "\n")) := by
  simp [answerText, diagnosticText, absenceText, reportLines, String.join, String.append_assoc]

/-- The token that cuts a line short stands at its column. -/
theorem Sound.exists_refuses (h : s.Sound) {r : TokenReader} (hready : s.reader.ready = (.ok (), r))
    {i : Interrupt} (hi : s.lineValue.1 = .error i) :
    ∃ e t column front blanks back, Refuses e column t i ∧ Cut r.line.text t front blanks back ∧
      column = front.length + blanks.length + 1 ∧ (t = .endOfLine ∨ t.Shaped) ∧
      (e.assigning = true → ['='] <:+ front) := by
  have hline := h.of_ready hready
  obtain ⟨accepted, e, t, column, behind, hsettles, -, hverdict⟩ := lineValue_settles hready
  obtain ⟨front, blanks, back, hcut, hcolumn, hlast⟩ := hline.exists_cut hsettles.line_eq
  refine ⟨e, t, column, front, blanks, back, ?_, hcut, hcolumn, ?_, fun ha => ?_⟩
  · rw [hi] at hverdict
    exact refuses_of_feed (Progress.eq_stopped_of_verdict? hverdict).1
  · by_cases ht : t = .endOfLine
    · exact .inl ht
    · exact .inr (shaped_of_pending (TokenReader.not_isFinished_of_ready hready)
        hsettles.line_eq ht)
  · -- a text is missing only behind `=`, which was the token taken last
    have hassign := (assigning_of_advance? rfl hsettles.advance_eq).mp ha
    rw [List.getLast?_map] at hassign
    obtain ⟨x, hx, hoperator⟩ := Option.map_eq_some_iff.mp hassign
    have hsuffix := hlast x hx
    rwa [hoperator] at hsuffix

/-- A line at hand that fails is reported at its culprit. -/
theorem Sound.reports (h : s.Sound) {r : TokenReader} (hready : s.reader.ready = (.ok (), r))
    {d : Diagnostic} (hd : s.lineValue.1 = .error (.failed d)) : s.Reports r.line.text d := by
  have hline := h.of_ready hready
  have htext : s.lineValue.2.reader.line.text = r.line.text := by
    rw [lineValue_of_ready hready]
    exact (restValue_frame _ r).2.2
  obtain ⟨hresult, houtput, -, -⟩ := step_of_unlimited h.unlimited
  obtain ⟨e, t, column, front, blanks, back, hrefuses, hcut, hcolumn, ht, hassign⟩ :=
    h.exists_refuses hready hd
  obtain ⟨fault, column'⟩ := d
  obtain ⟨rfl, hpoints⟩ := hcut.pointsAt hcolumn ht hassign hrefuses
  have hlength := hcut.length_eq hcolumn
  rw [hd] at hresult houtput
  rw [htext, answerText_failed] at houtput
  refine ⟨hresult, houtput, ?_, ?_, ?_, hpoints⟩
  · simp only [reportLines, List.forall_mem_cons]
    refine ⟨hpoints.lineFeed_notMem hline.lineFeed_notMem, ?_, by simp, by decide, by simp⟩
    rw [String.toList_ofList]
    exact hline.lineFeed_notMem
  · rw [hcolumn]
    exact Nat.le_add_left 1 _
  · rw [hlength]
    exact Nat.le_add_right _ _

/-- **Every report points at the culprit**, after any steps: at the one character that the fault is
about, or behind the end of the line. So does the breakdown over a text that is no number. -/
theorem after_reports (prompt : String) (input : Input) (written : ByteArray) (n : Nat) :
    let s := (new prompt input ⟨written, none⟩).after n
    (∀ d, s.lineValue.1 = .error (.failed d) →
      ∃ r, s.reader.ready = (.ok (), r) ∧ s.Reports r.line.text d) ∧
    ∀ text column, s.step.1 = .error (.invalidNumber text column) →
      ∃ r, s.reader.ready = (.ok (), r) ∧ 1 ≤ column ∧
        text.toList <+: r.line.text.drop (column - 1) := by
  intro s
  have hsound : s.Sound := sound_after prompt input written n
  refine ⟨fun d hd => ?_, fun text column hinvalid => ?_⟩
  · obtain ⟨r, hready⟩ := exists_ready_of_error hd (by simp) (by simp)
    exact ⟨r, hready, hsound.reports hready hd⟩
  · have hi := lineValue_of_invalidNumber hinvalid
    obtain ⟨r, hready⟩ := exists_ready_of_error hi (by simp) (by simp)
    obtain ⟨e, t, column', front, blanks, back, hrefuses, hcut, hcolumn, -, -⟩ :=
      hsound.exists_refuses hready hi
    obtain ⟨rfl, hwritten⟩ := hrefuses.eq_of_invalidNumber
    refine ⟨r, hready, ?_, hwritten ▸ hcut.isPrefix hcolumn⟩
    rw [hcolumn]
    exact Nat.le_add_left 1 _

/-- The report of the line `1 é` points at its last character. -/
theorem after_reports_badToken :
    let s := new TokenReader.defaultPrompt ⟨[49, 32, 195, 169, 10], none⟩ (Output.empty none)
    let d : Diagnostic := ⟨.badToken 'é', 3⟩
    s.lineValue.1 = .error (.failed d) ∧
      ∃ r, s.reader.ready = (.ok (), r) ∧ s.Reports r.line.text d := by
  intro s d
  have hd : s.lineValue.1 = .error (.failed d) := by
    have hinterrupt :
        (match s.lineValue.1 with | .error i => some i | .ok _ => none) = some (.failed d) := by
      decide +kernel
    rcases hvalue : s.lineValue.1 with i | x
    · rw [hvalue] at hinterrupt
      rw [Option.some.inj hinterrupt]
    · rw [hvalue] at hinterrupt
      cases hinterrupt
  exact ⟨hd, (after_reports _ _ _ 0).1 d hd⟩

end Session

end StackCalculator
