import StackCalculator.Proofs.Events
import StackCalculator.Proofs.Viability

/-!
# Alignment with the lines of the input

A step of a session reads one line at most, and where the next step goes on depends on how the line
came to its end. Behind a line that was answered, the next step begins with the next line of the
input, and never comes back to the old one. Behind a line that was left in the middle, the next step
goes on right behind the last token that was taken. Once the lines have run out, no step does
anything but say so again.

## Main definitions

* `Session.BeginsWithLine`: a step that begins with the next line of the input
* `Session.LeavesLine`: a step that leaves its line where it is
* `Session.Aligned`: where the steps of a session begin and end

## Main results

* `Session.exists_events_eq`: only the beginning of a step prompts or reads
* `Session.beginsWithLine_of_isFinished`: a step begins with the next line if its line is finished
* `Session.aligned`: every session is aligned with the lines of its input
-/

namespace StackCalculator

/-- The prompt or a read. -/
def Event.fetches : Event → Bool
  | prompted | read _ => true
  | returned .. | wrote _ | dropped => false

namespace Session

open Evaluation

variable {s : Session}

/-! ## What a step prompts for and reads -/

/-- The answer to a line neither prompts nor reads. -/
theorem fetches_answerEvents (value : Except Interrupt Float) (s : Session) :
    ∀ event ∈ answerEvents value s, event.fetches = false := by
  match value with
  | .ok _ | .error (.ended _) | .error (.fatal _) => simp [answerEvents, Event.fetches]
  | .error (.failed d) =>
    rw [answerEvents]
    split <;> simp [Event.fetches]

/-- **Only the beginning of a step prompts or reads.** -/
theorem exists_events_eq (s : Session) :
    ∃ rest, s.events = s.reader.readyEvents ++ rest ∧ ∀ event ∈ rest, event.fetches = false := by
  rcases heq : s.reader.ready with ⟨i | u, r⟩
  · exact ⟨_, events_of_error heq, fetches_answerEvents _ _⟩
  · obtain ⟨taken, x, -, hevents⟩ := events_of_ready heq
    refine ⟨_, hevents.trans (List.append_assoc _ _ _), fun event hmem => ?_⟩
    rcases List.mem_append.mp hmem with hmem | hmem
    · obtain ⟨y, -, rfl⟩ := List.mem_map.mp hmem
      rfl
    · exact fetches_answerEvents _ _ event hmem

/-- **A step prompts at most once and reads at most once.** -/
theorem count_events_le (s : Session) :
    s.events.count .prompted ≤ 1 ∧ s.events.countP Event.isRead ≤ 1 := by
  obtain ⟨rest, hevents, hrest⟩ := s.exists_events_eq
  have hprompted : rest.count .prompted = 0 :=
    List.count_eq_zero.mpr fun hmem => absurd (hrest _ hmem) (by simp [Event.fetches])
  have hread : rest.countP Event.isRead = 0 := by
    refine List.countP_eq_zero.mpr fun event hmem hread => ?_
    cases event with
    | read fetched => cases hrest _ hmem
    | _ => cases hread
  rw [hevents, List.count_append, List.countP_append, hprompted, hread, TokenReader.readyEvents]
  split
  · rw [TokenReader.fetchEvents]
    split <;> simp [Event.isRead]
  · simp

/-! ## Lines that are finished -/

/-- **A step that begins with the next line of the input.** -/
structure BeginsWithLine (s : Session) : Prop where
  /-- The prompt comes first. -/
  prompted : [.prompted] <+: s.events
  /-- If it is written, what the input has next is read right behind it. -/
  read : (s.reader.write s.reader.prompt).1 = .ok () →
    [.prompted, .read s.reader.input.fetch.1] <+: s.events
  /-- If it cannot be written, the step does nothing else and breaks down. -/
  unwritten : ∀ err, (s.reader.write s.reader.prompt).1 = .error err →
    s.events = [.prompted] ∧ s.step.1 = .error err

/-- **A step begins with the next line if its line is finished.** -/
theorem beginsWithLine_of_isFinished (h : s.reader.line.phase.isFinished = true) :
    s.BeginsWithLine := by
  obtain ⟨rest, hevents, -⟩ := s.exists_events_eq
  rw [TokenReader.readyEvents_of_isFinished h] at hevents
  refine ⟨?_, fun hwrite => ?_, fun err hwrite => ?_⟩
  · rw [hevents]
    exact (TokenReader.prompted_prefix_fetchEvents _).trans (List.prefix_append _ _)
  · rw [hevents, TokenReader.fetchEvents_of_write hwrite]
    exact List.prefix_append _ _
  · rcases hw : s.reader.write s.reader.prompt with ⟨err' | u, r⟩
    · rw [hw] at hwrite
      cases hwrite
      have hready : s.reader.ready = (.error (.fatal err), r) := by
        rw [TokenReader.ready, if_pos h, TokenReader.fetch, hw]
      have hvalue : s.lineValue = (.error (.fatal err), ⟨r, s.symbols⟩) := by rw [lineValue, hready]
      refine ⟨?_, by rw [step, hvalue]⟩
      rw [events_of_error hready, TokenReader.readyEvents_of_isFinished h, TokenReader.fetchEvents,
        hw, hvalue]
      rfl
    · rw [hw] at hwrite
      cases hwrite

/-- **No token of a finished line is ever returned again**, but only those of lines read later. -/
theorem exists_lastRead_of_isFinished (h : s.reader.line.phase.isFinished = true) {n : Nat}
    {before behind : List Event} {t : Token} {column : Nat}
    (htrace : s.trace n = before ++ .returned t column :: behind) :
    ∃ text since, LastRead before text since ∧ since ++ [(t, column)] <+: lineTokens 0 text :=
  (leads_trace s n).exists_lastRead (LineCursor.pending_of_isFinished h) htrace

/-! ## Lines that are left in the middle -/

/-- **A step that leaves its line where it is**: because of `exit`, because of a text that is no
number, or because its diagnostic cannot be written. -/
def LeavesLine (s : Session) : Prop :=
  s.step.1 = .ok (some .exit) ∨
  (∃ text column, s.step.1 = .error (.invalidNumber text column)) ∨
  ∃ d err, s.lineValue.1 = .error (.failed d) ∧
    (s.lineValue.2.write (diagnosticText d s.lineValue.2.reader.line.text)).1 = .error err

/-- The answer leaves the line alone, unless it is a diagnostic that is written. -/
theorem step_line {i : Interrupt} (hi : s.lineValue.1 = .error i)
    (h : ∀ d, i = .failed d → ∃ err,
      (s.lineValue.2.write (diagnosticText d s.lineValue.2.reader.line.text)).1 = .error err) :
    s.step.2.reader.line = s.lineValue.2.reader.line := by
  rw [step_eq_answer, hi]
  cases i with
  | failed d =>
    obtain ⟨err, hw⟩ := h d rfl
    rw [write_eq] at hw
    simp only [answer]
    rw [answerFailure_eq]
    generalize s.lineValue.2.reader.output.write
      (diagnosticText d s.lineValue.2.reader.line.text) = p at hw ⊢
    rcases p with ⟨reason | u, output⟩
    · rfl
    · cases hw
  | ended ending => exact write_reader_line _ _
  | fatal err => rfl

/-- A line that is left is at hand, and stays where it is. -/
theorem LeavesLine.exists_ready (h : s.LeavesLine) :
    ∃ r, s.reader.ready = (.ok (), r) ∧ s.step.2.reader.line = s.lineValue.2.reader.line := by
  rcases h with hexit | ⟨text, column, hinvalid⟩ | ⟨d, err, hfailed, hwrite⟩
  · have hi := lineValue_of_ended hexit
    obtain ⟨r, hready⟩ := exists_ready_of_error hi (by simp) (by simp)
    exact ⟨r, hready, step_line hi (by simp)⟩
  · have hi := lineValue_of_invalidNumber hinvalid
    obtain ⟨r, hready⟩ := exists_ready_of_error hi (by simp) (by simp)
    exact ⟨r, hready, step_line hi (by simp)⟩
  · obtain ⟨r, hready⟩ := exists_ready_of_error hfailed (by simp) (by simp)
    refine ⟨r, hready, step_line hfailed fun d' hd => ?_⟩
    cases hd
    exact ⟨err, hwrite⟩

theorem filterMap_token?_readyEvents (r : TokenReader) :
    r.readyEvents.filterMap Event.token? = [] := by
  rw [TokenReader.readyEvents, TokenReader.fetchEvents]
  split
  · split <;> rfl
  · rfl

theorem filterMap_token?_answerEvents (value : Except Interrupt Float) (s : Session) :
    (answerEvents value s).filterMap Event.token? = [] := by
  match value with
  | .ok _ | .error (.ended _) | .error (.fatal _) => rfl
  | .error (.failed d) =>
    rw [answerEvents]
    split <;> rfl

theorem filterMap_token?_returned (taken : List (Token × Nat)) :
    (taken.map fun x => .returned x.1 x.2).filterMap Event.token? = taken := by
  rw [List.filterMap_map]
  exact List.filterMap_some

/-- **A line that is left in the middle**, at the end of a step that took the tokens `taken` and `x`
of it. -/
structure GoesOnBehind (s : Session) (r : TokenReader) (taken : List (Token × Nat))
    (x : Token × Nat) : Prop where
  ready : s.reader.ready = (.ok (), r)
  returned : s.events.filterMap Event.token? = taken ++ [x]
  /-- The tokens that stay pending are those behind the last one taken. -/
  pending_eq : r.line.pending = taken ++ x :: s.step.2.reader.line.pending
  text_eq : s.step.2.reader.line.text = r.line.text
  /-- Unless the last token taken was the end of the line, the next step goes on with the next token
  of the line, and neither prompts nor reads. -/
  goesOn : x.1 ≠ .endOfLine → (∀ event ∈ s.step.2.events, event.fetches = false) ∧
    ∃ y rest, s.step.2.reader.line.pending = y :: rest ∧ [.returned y.1 y.2] <+: s.step.2.events
  /-- If it was, the next step begins with the next line. -/
  begins : x.1 = .endOfLine → s.step.2.BeginsWithLine

theorem LeavesLine.goesOnBehind (h : s.LeavesLine) : ∃ r taken x, s.GoesOnBehind r taken x := by
  obtain ⟨r, hready, hline⟩ := h.exists_ready
  obtain ⟨taken, x, hpending, hevents⟩ := events_of_ready hready
  have hopen := TokenReader.not_isFinished_of_ready hready
  rw [← hline] at hpending
  refine ⟨r, taken, x, hready, ?_, hpending, ?_, fun hx => ?_, fun hx => ?_⟩
  · rw [hevents, List.filterMap_append, List.filterMap_append, filterMap_token?_readyEvents,
      filterMap_token?_answerEvents, filterMap_token?_returned, List.nil_append, List.append_nil]
  · rw [hline, lineValue_of_ready hready]
    exact (restValue_frame _ r).2.2
  · -- the end of the line is still to come
    have hnext : s.step.2.reader.line.phase.isFinished = false := by
      refine eq_false_of_ne_true fun hf => hx ?_
      obtain ⟨before, column, hend, -⟩ := LineCursor.exists_pending_eq hopen
      rw [hend, LineCursor.pending_of_isFinished hf] at hpending
      exact (congrArg Prod.fst (List.append_singleton_inj.mp hpending).2).symm
    have hready' := TokenReader.ready_of_not_isFinished hnext
    obtain ⟨rest, hevents', hrest⟩ := s.step.2.exists_events_eq
    rw [TokenReader.readyEvents_of_not_isFinished hnext, List.nil_append] at hevents'
    refine ⟨hevents' ▸ hrest, ?_⟩
    obtain ⟨taken', x', hpending', hevents'⟩ := events_of_ready hready'
    rw [TokenReader.readyEvents_of_not_isFinished hnext, List.nil_append] at hevents'
    rw [hpending', hevents']
    cases taken' with
    | nil => exact ⟨x', _, rfl, _, rfl⟩
    | cons y taken' => exact ⟨y, _, rfl, _, rfl⟩
  · obtain ⟨t, column⟩ := x
    obtain rfl : t = .endOfLine := hx
    obtain ⟨hnone, -⟩ := LineCursor.split_endOfLine hopen hpending
    exact beginsWithLine_of_isFinished (LineCursor.pending_eq_nil_iff.mp hnone)

/-! ## Sessions without more lines -/

/-- **A session that has run out of lines**: it needs one, and the input has no more. -/
structure OutOfLines (s : Session) : Prop where
  isFinished : s.reader.line.phase.isFinished = true
  bytes_eq : s.reader.input.bytes = []
  failure?_eq : s.reader.input.failure? = none
  room?_eq : s.reader.output.room? = none

/-- **A session that has run out of lines says so**, and nothing else becomes of it. -/
theorem OutOfLines.step (h : s.OutOfLines) :
    s.step.1 = .ok (some .endOfInput) ∧ s.step.2.OutOfLines ∧
      s.step.2.reader.prompt = s.reader.prompt ∧ s.step.2.symbols = s.symbols ∧
      s.step.2.reader.output =
        s.reader.output.extend (s.reader.prompt ++ closingText .endOfInput) := by
  obtain ⟨hf, hbytes, hfailure, hroom⟩ := h
  have hfetch : s.reader.input.fetch = (.exhausted, s.reader.input) := by
    simp [Input.fetch, Input.afterLine?, hbytes, hfailure]
  obtain ⟨r, hready, hr, hi⟩ : ∃ r, s.reader.ready = (.error (.ended .endOfInput), r) ∧
      r.line = s.reader.line ∧ r.input = s.reader.input := by
    rw [TokenReader.ready, if_pos hf, TokenReader.fetch, TokenReader.write_of_unlimited hroom]
    simp only [TokenReader.receive, hfetch]
    exact ⟨_, rfl, rfl, rfl⟩
  have hvalue : s.lineValue = (.error (.ended .endOfInput), ⟨r, s.symbols⟩) := by
    rw [lineValue, hready]
  obtain ⟨hresult, houtput, hline, hprompt⟩ := step_of_unlimited hroom
  have hneeded : s.promptText = s.reader.prompt := if_pos hf
  rw [hvalue] at hresult houtput hline
  rw [hneeded] at houtput
  refine ⟨hresult, ⟨?_, ?_, ?_, ?_⟩, hprompt, ?_, houtput⟩
  · rw [hline, answeredLine, hr, hf]
    simp
  · rw [step_reader_input, hvalue, hi, hbytes]
  · rw [step_reader_input, hvalue, hi, hfailure]
  · rw [houtput]
    exact hroom
  · rw [step_symbols, hvalue]

/-- The lines have run out where the end of the input ends a session. -/
theorem outOfLines_of_ended (h : s.step.1 = .ok (some .endOfInput))
    (hroom : s.reader.output.room? = none) : s.OutOfLines := by
  have hi := lineValue_of_ended h
  rcases hready : s.reader.ready with ⟨j | u, r⟩
  · rw [lineValue, hready] at hi
    cases hi
    obtain ⟨hf, ⟨-, hbytes, hfailure⟩ | ⟨reason, hstream⟩⟩ := ready_error_cases hready
    · exact ⟨hf, hbytes, hfailure, hroom⟩
    · cases hstream
  · -- no token of a line runs out of lines
    rw [lineValue_of_ready hready] at hi
    obtain ⟨ts, e, r', -, hstopped⟩ := exists_reaches_of_error hi
    rcases (refuses_of_feed hstopped).reported with ⟨fault, hfault⟩ | ⟨text, htext⟩ | hexit
    · cases hfault
    · cases htext
    · cases hexit

/-- Once the lines have run out, they stay so. -/
theorem OutOfLines.after (h : s.OutOfLines) (n : Nat) :
    (s.after n).OutOfLines ∧ (s.after n).reader.prompt = s.reader.prompt ∧
      (s.after n).symbols = s.symbols := by
  induction n with
  | zero => exact ⟨h, rfl, rfl⟩
  | succ n ih =>
    obtain ⟨hout, hprompt, hsymbols⟩ := ih
    obtain ⟨-, hout', hprompt', hsymbols', -⟩ := hout.step
    exact ⟨hout', hprompt'.trans hprompt, hsymbols'.trans hsymbols⟩

/-! ## Alignment -/

/-- **Where the steps of a session begin and end**, in the lines of its input. -/
structure Aligned (s : Session) : Prop where
  /-- The events of a step, in which every token is asked for, do what the step does. -/
  leads : (askedValue (Evaluation.start s.symbols) s.reader).1 = s.lineValue ∧
    Leads s.reader.streams s.events s.step.2.reader.streams
  /-- A step prompts at most once and reads at most once. -/
  once : s.events.count .prompted ≤ 1 ∧ s.events.countP Event.isRead ≤ 1
  /-- Behind a line that was answered, the next step begins with the next line. -/
  begins : s.step.1 = .ok none → s.step.2.BeginsWithLine
  /-- No token of a line that was answered is ever returned again, but only those of lines read
  later. -/
  forgets : s.step.1 = .ok none → ∀ n before t column behind,
    s.step.2.trace n = before ++ .returned t column :: behind →
      ∃ text since, LastRead before text since ∧ since ++ [(t, column)] <+: lineTokens 0 text
  /-- A line that was left in the middle is gone on with behind the last token taken. -/
  goesOn : s.LeavesLine → ∃ r taken x, s.GoesOnBehind r taken x
  /-- Once the lines have run out, no step does anything but say so. -/
  stays : s.step.1 = .ok (some .endOfInput) → s.reader.output.room? = none → ∀ n,
    let s' := s.step.2.after n
    s'.step.1 = .ok (some .endOfInput) ∧ s'.step.2.symbols = s.step.2.symbols ∧
      s'.step.2.reader.output = s'.reader.output.extend (s.reader.prompt ++ "\nBye\n")

/-- **Every session is aligned with the lines of its input**, after any steps. -/
theorem aligned (s : Session) : s.Aligned where
  leads := ⟨s.askedValue_eq_lineValue, s.leads_step⟩
  once := s.count_events_le
  begins h := beginsWithLine_of_isFinished (isFinished_of_step h)
  forgets h _ _ _ _ _ htrace := exists_lastRead_of_isFinished (isFinished_of_step h) htrace
  goesOn h := h.goesOnBehind
  stays h hroom n := by
    obtain ⟨-, hout, hprompt, -, -⟩ := (outOfLines_of_ended h hroom).step
    obtain ⟨hout', hprompt', hsymbols'⟩ := hout.after n
    obtain ⟨hstep, -, -, hsymbols, houtput⟩ := hout'.step
    rw [hprompt', hprompt] at houtput
    exact ⟨hstep, hsymbols.trans hsymbols', houtput⟩

end Session

end StackCalculator
