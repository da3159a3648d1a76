import StackCalculator.Proofs.Alignment
import StackCalculator.Proofs.Offsets
import StackCalculator.Proofs.Terminators

/-!
# Bounds on the work of a session

Nothing in a session counts down: it goes on until its line, its input or its output ends it. Its
work is bounded all the same, on three levels. Each step after which the session goes on takes a
line of the input, and the last step needs none; each token but the last of those that a line is
asked for leaves less of the line; and a cursor that returns a token, other than the end of the
line, moves on to the right.

## Main definitions

* `Input.lineCount bytes`: the number of lines in some bytes, a last one without a line feed among
  them
* `Session.EndsWithin s n`: the run of a session goes on for `n` steps at most, and ends with one
  more
* `Session.ReadsOnce`: a step that prompts once and reads once
* `Session.asked`: the readers that are asked for a token in the course of a line
* `TokenReader.MovesRight`: a cursor moves to the right, and stays within its line

## Main results

* `Input.length_lines_le`: an input delivers no more lines than there are in its bytes
* `Session.endsWithin`: a run takes one step more than there are lines at most
* `Session.asksWithin`: a line is asked for no more tokens than it has characters, and one
* `TokenReader.movesRight_of_next`: a token other than the end of the line moves the cursor to the
  right
* `Session.work_bounded`: all of this
-/

namespace StackCalculator

namespace Input

/-! ## The number of lines -/

instance : DecidablePred Complete := fun bytes =>
  inferInstanceAs (Decidable (bytes = [] ∨ bytes.getLast? = some lineFeed))

/-- **The number of lines in some bytes.** The last one needs no line feed, unless it is empty. -/
def lineCount (bytes : List UInt8) : Nat :=
  bytes.count lineFeed + if Complete bytes then 0 else 1

theorem complete_append_iff {line rest : List UInt8} :
    Complete (line ++ lineFeed :: rest) ↔ Complete rest := by
  refine ⟨Complete.of_append, fun h => .inr ?_⟩
  rcases h with rfl | hlast
  · exact List.getLast?_concat
  · rw [List.getLast?_append, List.getLast?_cons, hlast]
    rfl

theorem lineCount_append {line : List UInt8} (h : lineFeed ∉ line) (rest : List UInt8) :
    lineCount (line ++ lineFeed :: rest) = lineCount rest + 1 := by
  simp only [lineCount, complete_append_iff, List.count_append, List.count_cons_self,
    List.count_eq_zero.mpr h]
  omega

theorem lineCount_of_notMem {bytes : List UInt8} (h : lineFeed ∉ bytes) :
    lineCount bytes = if bytes = [] then 0 else 1 := by
  have hcomplete : Complete bytes ↔ bytes = [] :=
    ⟨fun hc => hc.resolve_right fun hlast => h (List.mem_of_getLast? hlast), .inl⟩
  simp only [lineCount, hcomplete, List.count_eq_zero.mpr h, Nat.zero_add]

/-- An input delivers the lines in its bytes, but for a last one that a failure hides. -/
theorem length_lines_le (bytes : List UInt8) (failure? : Option String) :
    (lines ⟨bytes, failure?⟩).length ≤ lineCount bytes ∧
      (failure? = none → (lines ⟨bytes, failure?⟩).length = lineCount bytes) := by
  induction hn : bytes.length using Nat.strong_induction_on generalizing bytes with
  | _ n ih =>
    by_cases hmem : lineFeed ∈ bytes
    · obtain ⟨line, rest, rfl, hline⟩ := List.eq_append_cons_of_mem hmem
      have hlt : rest.length < n := by
        rw [← hn, List.length_append, List.length_cons]
        omega
      obtain ⟨hle, heq⟩ := ih rest.length hlt rest rfl
      rw [lines_of_line (fetch_append_lineFeed hline rest failure?), lineCount_append hline,
        List.length_cons]
      exact ⟨Nat.succ_le_succ hle, fun hnone => congrArg Nat.succ (heq hnone)⟩
    · rw [lines_of_lineFeed_notMem hmem, lineCount_of_notMem hmem]
      by_cases hb : bytes = [] <;> cases failure? <;> simp [hb]

end Input

namespace Session

variable {s : Session}

/-! ## Steps -/

/-- **A step that prompts once and reads once.** -/
structure ReadsOnce (s : Session) : Prop where
  /-- The events of the step do what the step does. -/
  leads : Leads s.reader.streams s.events s.step.2.reader.streams
  prompted : s.events.count .prompted = 1
  read : s.events.countP Event.isRead = 1
  /-- The prompt is written, and then the answer to the line. -/
  output_eq : s.step.2.reader.output = s.reader.output.extend
    (s.reader.prompt ++ answerText s.lineValue.2.reader.line.text s.lineValue.1)

/-- **A step that needs a line prompts once and reads once**, if its output has no limit. -/
theorem readsOnce_of_isFinished (hneeds : s.reader.line.phase.isFinished = true)
    (hroom : s.reader.output.room? = none) : s.ReadsOnce := by
  obtain ⟨-, houtput, -, -⟩ := step_of_unlimited hroom
  have hneeded : s.promptText = s.reader.prompt := if_pos hneeds
  have hwritten : (s.reader.write s.reader.prompt).1 = .ok () := by
    rw [TokenReader.write_of_unlimited hroom]
  have hbegins := (beginsWithLine_of_isFinished hneeds).read hwritten
  obtain ⟨hprompted, hread⟩ := s.count_events_le
  refine ⟨s.leads_step, Nat.le_antisymm hprompted ?_, Nat.le_antisymm hread ?_, ?_⟩
  · exact hbegins.sublist.count_le .prompted
  · exact hbegins.sublist.countP_le (p := Event.isRead)
  · rw [houtput, hneeded]

theorem eq_ended_of_outcome? {result : Except FatalError (Option Ending)} {ending : Ending}
    (h : outcome? result = some (.ok ending)) : result = .ok (some ending) := by
  obtain err | _ | ending' := result <;> cases h
  rfl

/-- **A run that comes to its end** behind `n` steps at most. -/
structure EndsWithin (s : Session) (n : Nat) : Prop where
  /-- The run goes on for `n` steps at most, and the step behind them ends it. -/
  ends : ∃ k ≤ n, s.steps = k + 1 ∧ s.Lasts k ∧ outcome? (s.after k).step.1 = some s.run.1
  /-- If the output has no limit, each of the steps prompts once and reads once. -/
  once : s.reader.output.room? = none → ∀ k < s.steps, (s.after k).ReadsOnce
  /-- A run to the end of the input takes all the steps there can be. -/
  reached : s.reader.output.room? = none → s.run.1 = .ok .endOfInput → s.steps = n + 1

/-- **A run takes one step more than there are lines at most.** -/
theorem endsWithin (hneeds : s.reader.line.phase.isFinished = true) :
    s.EndsWithin (Input.lineCount s.reader.input.bytes) := by
  obtain ⟨k, hsteps, hlasts, hlast, -⟩ := s.exists_last_step
  obtain ⟨hk, hdrop⟩ := Lasts.lines_eq_drop hlasts hneeds
  obtain ⟨hle, heq⟩ := Input.length_lines_le s.reader.input.bytes s.reader.input.failure?
  refine ⟨⟨k, Nat.le_trans hk hle, hsteps, hlasts, hlast⟩, fun hroom m hm => ?_,
    fun hroom hend => ?_⟩
  · have hbefore : s.Lasts m := fun i hi => hlasts i (by omega)
    exact readsOnce_of_isFinished (hbefore.isFinished hneeds) (room?_after hroom m)
  · rw [hend] at hlast
    have hstep := eq_ended_of_outcome? hlast
    obtain ⟨-, hbytes, hnone, -⟩ := outOfLines_of_ended hstep (room?_after hroom k)
    have hdone : (s.after k).reader.input.lines = [] := by
      rw [← Input.lines_nil (s.after k).reader.input.failure?, ← hbytes]
    rw [hdrop, List.drop_eq_nil_iff] at hdone
    have hcount := heq ((failure?_after s k).symm.trans hnone)
    rw [hsteps, ← hcount, Nat.le_antisymm hk hdone]

/-! ## Lines -/

/-- **The readers that are asked for a token** in the course of a line, one after the other. -/
def asked (e : Evaluation) (r : TokenReader) : List TokenReader :=
  match _ : r.next with
  | (.error _, _) => [r]
  | (.ok t, r') =>
    match _ : e.feed t r'.line.column with
    | .next e' remark? => r :: asked e' (r'.noteAny remark?)
    | .done .. | .stopped _ => [r]
termination_by (r.input.bytes.length, r.line.remaining)
decreasing_by
  rw [TokenReader.noteAny_input, TokenReader.noteAny_line]
  exact TokenReader.next_lt ‹_› (Evaluation.ne_endOfLine_of_next ‹_›)

theorem asked_of_next {e e' : Evaluation} {r r' : TokenReader} {t : Token} {remark? : Option Remark}
    (hnext : r.next = (.ok t, r')) (hfeed : e.feed t r'.line.column = .next e' remark?) :
    asked e r = r :: asked e' (r'.noteAny remark?) := by
  rw [asked]
  split
  · next heq => cases hnext.symm.trans heq
  · next heq =>
    cases hnext.symm.trans heq
    split
    · next heq => cases hfeed.symm.trans heq; rfl
    · next heq => cases hfeed.symm.trans heq
    · next heq => cases hfeed.symm.trans heq

/-- Where no token can be had, none is asked for again. -/
theorem asked_of_error {e : Evaluation} {r r' : TokenReader} {i : Interrupt}
    (hnext : r.next = (.error i, r')) : asked e r = [r] := by
  rw [asked]
  split
  · rfl
  · next heq => cases hnext.symm.trans heq

/-- Behind a token that leads to no more of the line, none is asked for. -/
theorem asked_of_last {e : Evaluation} {r r' : TokenReader} {t : Token}
    (hnext : r.next = (.ok t, r'))
    (hlast : ∀ e' remark?, e.feed t r'.line.column ≠ .next e' remark?) : asked e r = [r] := by
  rw [asked]
  split
  · rfl
  · next heq =>
    cases hnext.symm.trans heq
    split
    · next hfeed => exact absurd hfeed (hlast _ _)
    · rfl
    · rfl

/-- **What happens in the course of a line** is what happens when its readers are asked. -/
theorem askedValue_events (e : Evaluation) (r : TokenReader) :
    (askedValue e r).2 = (asked e r).flatMap TokenReader.nextEvents := by
  fun_induction askedValue e r with
  | case1 e r i r' hnext =>
    rw [asked_of_error hnext, List.flatMap_singleton]
  | case2 e r t r' hnext e' remark? hfeed value events hvalue ih =>
    rw [hvalue] at ih
    rw [asked_of_next hnext hfeed, List.flatMap_cons, ← ih]
  | case3 e r t r' hnext x symbols remark hfeed =>
    have hlast : asked e r = [r] :=
      asked_of_last hnext fun _ _ hmore => by cases hfeed.symm.trans hmore
    rw [hlast, List.flatMap_singleton]
  | case4 e r t r' hnext i hfeed =>
    have hlast : asked e r = [r] :=
      asked_of_last hnext fun _ _ hmore => by cases hfeed.symm.trans hmore
    rw [hlast, List.flatMap_singleton]

/-- Behind the first token, each token that is asked for leaves less of the line. -/
theorem length_asked_le {e : Evaluation} {r r₁ : TokenReader} (h : r.ready = (.ok (), r₁)) :
    (asked e r).length ≤ r₁.line.remaining + 1 := by
  fun_induction asked e r generalizing r₁ with
  | case1 => exact Nat.le_add_left 1 _
  | case2 e r t r' hnext e' remark? hfeed ih =>
    cases hnext.symm.trans (TokenReader.next_of_ready h)
    have hother : r₁.line.upcoming ≠ .endOfLine := Evaluation.ne_endOfLine_of_next hfeed
    have hopen := TokenReader.not_isFinished_noteAny_take hother remark?
    have hmore := ih (TokenReader.ready_of_not_isFinished hopen)
    rw [TokenReader.noteAny_line] at hmore
    have hless : r₁.take.2.line.remaining < r₁.line.remaining := LineCursor.remaining_take_lt hother
    rw [List.length_cons]
    omega
  | case3 => exact Nat.le_add_left 1 _
  | case4 => exact Nat.le_add_left 1 _

/-- **A line that is asked for few tokens**: one more than it has characters at most. -/
structure AsksWithin (s : Session) : Prop where
  /-- A line has the value that it has with every token asked for. -/
  value_eq : (askedValue (Evaluation.start s.symbols) s.reader).1 = s.lineValue
  /-- What happens in the course of the line is what happens when these readers are asked. -/
  events_eq : (askedValue (Evaluation.start s.symbols) s.reader).2 =
    (asked (Evaluation.start s.symbols) s.reader).flatMap TokenReader.nextEvents
  /-- There is one more of them than the line has characters at most. -/
  length_le : (asked (Evaluation.start s.symbols) s.reader).length ≤
    s.lineValue.2.reader.line.text.length + 1

/-- **A line is asked for one token more than it has characters at most.** -/
theorem asksWithin (s : Session) : s.AsksWithin where
  value_eq := s.askedValue_eq_lineValue
  events_eq := askedValue_events _ _
  length_le := by
    rcases hready : s.reader.ready with ⟨i | u, r⟩
    · -- where no line can be had, one token is asked for
      have hnext : s.reader.next = (.error i, r) := by rw [TokenReader.next, hready]
      rw [asked_of_error hnext]
      exact Nat.le_add_left 1 _
    · obtain ⟨-, -, htext⟩ := restValue_frame (Evaluation.start s.symbols) r
      have hasked := length_asked_le (e := Evaluation.start s.symbols) hready
      have hrest : r.line.remaining ≤ r.line.text.length := Nat.sub_le _ _
      rw [lineValue_of_ready hready, htext]
      exact Nat.le_trans hasked (Nat.succ_le_succ hrest)

end Session

/-! ## Cursors -/

/-- **A token other than the end of the line lies behind the cursor**, within the line. -/
theorem LineCursor.lt_cursor_take {l : LineCursor} (h : l.upcoming ≠ .endOfLine) :
    l.cursor < l.take.2.cursor ∧ l.take.2.cursor ≤ l.text.length := by
  have hless := remaining_take_lt h
  simp only [remaining, take_text] at hless
  exact ⟨by omega, cursor_take_le (by omega)⟩

/-- **A cursor that moves to the right**, and stays within its line, whether it counts characters or
bytes. On a line that was just read it comes from the beginning. -/
structure TokenReader.MovesRight (r r' : TokenReader) : Prop where
  text_eq : r.line.phase.isFinished = false → r'.line.text = r.line.text
  cursor_lt : (if r.line.phase.isFinished then 0 else r.line.cursor) < r'.line.cursor
  cursor_le : r'.line.cursor ≤ r'.line.text.length
  offset_lt : (if r.line.phase.isFinished then 0 else r.line.buffer.cursor) < r'.line.buffer.cursor
  offset_le : r'.line.buffer.cursor ≤ r'.line.buffer.line.utf8ByteSize

/-- **A token other than the end of the line moves the cursor to the right.** -/
theorem TokenReader.movesRight_of_next {r r' : TokenReader} {t : Token} (h : r.next = (.ok t, r'))
    (ht : t ≠ .endOfLine) : r.MovesRight r' := by
  obtain ⟨r₁, hready, rfl, rfl⟩ := exists_ready_of_next h
  obtain ⟨hlt, hle⟩ := LineCursor.lt_cursor_take (l := r₁.line) ht
  have hoffset := byteOffset_lt r₁.line.text hlt hle
  rcases ready_ok_cases hready with ⟨hopen, rfl⟩ | ⟨hneeds, -⟩
  · refine ⟨fun _ => rfl, ?_, hle, ?_, byteOffset_le _ _⟩
    · rw [hopen]
      exact hlt
    · rw [hopen]
      exact hoffset
  · refine ⟨fun hopen => ?_, ?_, hle, ?_, byteOffset_le _ _⟩
    · cases hneeds.symm.trans hopen
    · rw [hneeds, if_pos rfl]
      exact Nat.zero_lt_of_lt hlt
    · rw [hneeds, if_pos rfl]
      exact Nat.zero_lt_of_lt hoffset

namespace Session

/-- **The work of a session is bounded**, whatever its input and its output do. Its run takes one
step more than there are lines at most, and if the output has no limit, each of these steps prompts
once and reads once; any line is asked for one token more than it has characters at most; and any
token that is had in this way, other than the end of the line, moves the cursor to the right. -/
theorem work_bounded (prompt : String) (input : Input) (output : Output) (symbols : SymbolTable) :
    let s : Session := { new prompt input output with symbols }
    s.EndsWithin (Input.lineCount input.bytes) ∧ (∀ s' : Session, s'.AsksWithin) ∧
      ∀ (r r' : TokenReader) (t : Token), r.next = (.ok t, r') → t ≠ .endOfLine →
        r.MovesRight r' := by
  intro s
  refine ⟨endsWithin rfl, asksWithin, ?_⟩
  intro r r' t hnext hother
  exact TokenReader.movesRight_of_next hnext hother

end Session

end StackCalculator
