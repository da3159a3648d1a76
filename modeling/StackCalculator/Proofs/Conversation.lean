import StackCalculator.Proofs.Answers
import StackCalculator.Proofs.Lines
import StackCalculator.Proofs.Viability

/-!
# Conversations

Nothing but the values of the names passes from one line to the next. What a session does with its
input is therefore a conversation: each line is replied to by itself, on the values that the lines
before it have left, until a line ends the session or there are no more lines. So a session over two
inputs put together does what a session over the first does and then, if that runs out of lines,
what a session over the second does that begins with the values left by the first.

## Main definitions

* `Session.replyTo symbols line`: what a session does with a line
* `Session.converse prompt symbols lines`: what it does with some lines
* `Session.fresh prompt input symbols`: a session that has only the values of the names

## Main results

* `Session.step_of_line`: a step of a session that needs a line replies to the next one
* `Session.run_of_unlimited`: a session is a conversation on the lines of its input
* `Session.run_append_of_complete`: a session over two inputs put together
-/

namespace StackCalculator

namespace Session

open Evaluation

/-! ## Replies -/

/-- **What a session does with a line**: what it writes, the values of the names afterwards, and
whether the session ends. -/
structure Reply where
  text : String
  symbols : SymbolTable
  result : Except FatalError (Option Ending)

/-- **The reply to a line** on these values of the names. -/
def replyTo (symbols : SymbolTable) (line : List Char) : Reply :=
  let (value, s) := restValue (Evaluation.start symbols) (TokenReader.holding line)
  ⟨answerText line value, s.symbols, answerResult value⟩

/-- How the session ends, if it does. -/
def outcome? : Except FatalError (Option Ending) → Option (Except FatalError Ending)
  | .ok none => none
  | .ok (some ending) => some (.ok ending)
  | .error err => some (.error err)

/-- **A line does not run the session out of lines**, and breaks it down only with a text that is no
number. -/
theorem outcome?_replyTo {symbols : SymbolTable} {line : List Char} {o : Except FatalError Ending}
    (h : outcome? (replyTo symbols line).result = some o) :
    o = .ok .exit ∨ ∃ text column, o = .error (.invalidNumber text column) := by
  obtain ⟨accepted, e, t, column, behind, -, -, hverdict⟩ :=
    restValue_settles (Evaluation.start symbols) (TokenReader.holding line) rfl
  rw [replyTo] at h
  cases hvalue : (restValue (Evaluation.start symbols) (TokenReader.holding line)).1 with
  | ok x => simp [hvalue, answerResult, outcome?] at h
  | error i =>
    rw [hvalue] at hverdict
    have hrefuses := refuses_of_feed (Progress.eq_stopped_of_verdict? hverdict).1
    rcases hrefuses.reported with ⟨fault, rfl⟩ | ⟨text, rfl⟩ | rfl
    · simp [hvalue, answerResult, outcome?] at h
    · refine .inr ⟨text, column, ?_⟩
      simpa [hvalue, answerResult, outcome?] using h.symm
    · refine .inl ?_
      simpa [hvalue, answerResult, outcome?] using h.symm

variable {s : Session}

/-- **A session that needs a line evaluates the next line of the input**, as if it held nothing
else. -/
theorem lineValue_of_line (hneeds : s.reader.line.phase.isFinished = true)
    (hroom : s.reader.output.room? = none) {line : List Char} {input : Input}
    (hfetch : s.reader.input.fetch = (.line line, input)) :
    let alone := restValue (Evaluation.start s.symbols) (TokenReader.holding line)
    s.lineValue.1 = alone.1 ∧ s.lineValue.2.symbols = alone.2.symbols ∧
      s.lineValue.2.reader.line.text = line ∧ s.lineValue.2.reader.input = input := by
  obtain ⟨r, hready, hline, hinput⟩ : ∃ r, s.reader.ready = (.ok (), r) ∧
      r.line = LineCursor.ofLine line ∧ r.input = input := by
    rw [TokenReader.ready, if_pos hneeds, TokenReader.fetch, TokenReader.write_of_unlimited hroom]
    simp only [TokenReader.receive, hfetch]
    exact ⟨_, rfl, rfl, rfl⟩
  obtain ⟨hvalue, hsymbols, -⟩ :=
    restValue_congr (Evaluation.start s.symbols) r (TokenReader.holding line) hline
  obtain ⟨-, -, htext⟩ := restValue_frame (Evaluation.start s.symbols) r
  rw [lineValue_of_ready hready]
  refine ⟨hvalue, hsymbols, ?_, ?_⟩
  · rw [htext, hline]
    rfl
  · rw [restValue_input, hinput]

/-- **A step of a session that needs a line** replies to the next line of the input. -/
theorem step_of_line (hneeds : s.reader.line.phase.isFinished = true)
    (hroom : s.reader.output.room? = none) {line : List Char} {input : Input}
    (hfetch : s.reader.input.fetch = (.line line, input)) :
    let reply := replyTo s.symbols line
    s.step.1 = reply.result ∧ s.step.2.symbols = reply.symbols ∧
      s.step.2.reader.output = s.reader.output.extend (s.reader.prompt ++ reply.text) ∧
      s.step.2.reader.prompt = s.reader.prompt ∧ s.step.2.reader.input = input := by
  intro reply
  obtain ⟨hvalue, hsymbols, htext, hinput⟩ := lineValue_of_line hneeds hroom hfetch
  obtain ⟨hresult, houtput, -, hprompt⟩ := step_of_unlimited hroom
  have hneeded : s.promptText = s.reader.prompt := if_pos hneeds
  rw [hneeded, htext, hvalue] at houtput
  refine ⟨?_, ?_, houtput, hprompt, ?_⟩
  · rw [hresult, hvalue]
    rfl
  · rw [step_symbols, hsymbols]
    rfl
  · rw [step_reader_input, hinput]

/-- What a session still writes where there are no more lines, and how it ends there. -/
def lastWord (prompt : String) : Option String → String × Except FatalError Ending
  | none => (prompt ++ closingText .endOfInput, .ok .endOfInput)
  | some reason => (prompt, .error (.stream reason))

/-- **A step of a session that needs a line**, where there are no more lines. -/
theorem step_of_no_line (hneeds : s.reader.line.phase.isFinished = true)
    (hroom : s.reader.output.room? = none) (hlines : s.reader.input.lines = []) :
    let last := lastWord s.reader.prompt s.reader.input.failure?
    outcome? s.step.1 = some last.2 ∧ s.step.2.symbols = s.symbols ∧
      s.step.2.reader.output = s.reader.output.extend last.1 := by
  intro last
  obtain ⟨hresult, houtput, -⟩ := step_of_unlimited hroom
  have hneeded : s.promptText = s.reader.prompt := if_pos hneeds
  have hready : s.reader.ready =
      ({ s.reader with
        output := s.reader.output.extend s.reader.prompt } : TokenReader).receive := by
    rw [TokenReader.ready, if_pos hneeds, TokenReader.fetch, TokenReader.write_of_unlimited hroom]
  rw [hneeded] at houtput
  rw [hresult, step_symbols, houtput]
  rcases Input.fetch_of_lines_eq_nil hlines with ⟨hnone, hfetch⟩ | ⟨reason, hreason, hfetch⟩
  · simp [lineValue, hready, TokenReader.receive, hfetch, hnone, answerResult, answerText, outcome?,
      last, lastWord]
  · simp [lineValue, hready, TokenReader.receive, hfetch, hreason, answerResult, answerText,
      outcome?, last, lastWord]

/-! ## Conversations -/

/-- **What a session does with some lines**: what it writes, the values of the names afterwards, and
how it ends, if it does not ask for more lines. -/
structure Conversation where
  text : String
  symbols : SymbolTable
  outcome? : Option (Except FatalError Ending)

namespace Conversation

/-- A conversation behind what was written before. -/
def behind (text : String) (c : Conversation) : Conversation :=
  { c with text := text ++ c.text }

/-- All that is written, if the session asks for more lines and there are none. -/
def written (last : String × Except FatalError Ending) (c : Conversation) : String :=
  match c.outcome? with
  | some _ => c.text
  | none => c.text ++ last.1

/-- How the session ends, if there are no more lines. -/
def result (last : String × Except FatalError Ending) (c : Conversation) :
    Except FatalError Ending :=
  c.outcome?.getD last.2

theorem written_behind (last : String × Except FatalError Ending) (text : String)
    (c : Conversation) : (c.behind text).written last = text ++ c.written last := by
  simp only [written, behind]
  split
  · rfl
  · rw [String.append_assoc]

end Conversation

/-- **A conversation**: the lines are replied to one after the other, each behind a prompt, until
one of them ends the session. -/
def converse (prompt : String) (symbols : SymbolTable) : List (List Char) → Conversation
  | [] => ⟨"", symbols, none⟩
  | line :: lines =>
    let reply := replyTo symbols line
    match outcome? reply.result with
    | some o => ⟨prompt ++ reply.text, reply.symbols, some o⟩
    | none => (converse prompt reply.symbols lines).behind (prompt ++ reply.text)

theorem converse_of_some {prompt : String} {symbols : SymbolTable} {line : List Char}
    {o : Except FatalError Ending} (h : outcome? (replyTo symbols line).result = some o)
    (lines : List (List Char)) : converse prompt symbols (line :: lines) =
      ⟨prompt ++ (replyTo symbols line).text, (replyTo symbols line).symbols, some o⟩ := by
  simp only [converse, h]

theorem converse_of_none {prompt : String} {symbols : SymbolTable} {line : List Char}
    (h : outcome? (replyTo symbols line).result = none) (lines : List (List Char)) :
    converse prompt symbols (line :: lines) =
      (converse prompt (replyTo symbols line).symbols lines).behind
        (prompt ++ (replyTo symbols line).text) := by
  simp only [converse, h]

section Converse

variable {prompt : String} {symbols : SymbolTable} {lines : List (List Char)}

/-- A conversation does not run out of lines by itself. -/
theorem outcome?_converse {o : Except FatalError Ending}
    (h : (converse prompt symbols lines).outcome? = some o) :
    o = .ok .exit ∨ ∃ text column, o = .error (.invalidNumber text column) := by
  induction lines generalizing symbols with
  | nil => cases h
  | cons line lines ih =>
    cases hreply : outcome? (replyTo symbols line).result with
    | some o' =>
      rw [converse_of_some hreply] at h
      cases h
      exact outcome?_replyTo hreply
    | none =>
      rw [converse_of_none hreply] at h
      exact ih h

/-- **A conversation that has ended does not hear more lines.** -/
theorem converse_append_of_some {o : Except FatalError Ending}
    (h : (converse prompt symbols lines).outcome? = some o) (more : List (List Char)) :
    converse prompt symbols (lines ++ more) = converse prompt symbols lines := by
  induction lines generalizing symbols with
  | nil => cases h
  | cons line lines ih =>
    rw [List.cons_append]
    cases hreply : outcome? (replyTo symbols line).result with
    | some o' => rw [converse_of_some hreply, converse_of_some hreply]
    | none =>
      rw [converse_of_none hreply] at h
      rw [converse_of_none hreply, converse_of_none hreply, ih h]

/-- **A conversation that goes on** hears more lines on the values that it has left. -/
theorem converse_append_of_none (h : (converse prompt symbols lines).outcome? = none)
    (more : List (List Char)) :
    converse prompt symbols (lines ++ more) =
      (converse prompt (converse prompt symbols lines).symbols more).behind
        (converse prompt symbols lines).text := by
  induction lines generalizing symbols with
  | nil => simp [converse, Conversation.behind]
  | cons line lines ih =>
    rw [List.cons_append]
    cases hreply : outcome? (replyTo symbols line).result with
    | some o =>
      rw [converse_of_some hreply] at h
      cases h
    | none =>
      rw [converse_of_none hreply] at h
      rw [converse_of_none hreply, converse_of_none hreply, ih h]
      simp [Conversation.behind, String.append_assoc]

end Converse

/-! ## Whole sessions -/

/-- A run is its first step, and the run behind it if the session goes on. -/
theorem run_eq (s : Session) : s.run =
    match s.step with
    | (.ok none, s') => s'.run
    | (.ok (some ending), s') =>
      (.ok ending, { s' with reader := s'.reader.note (.sessionEnded ending) })
    | (.error err, s') => (.error err, s') := by
  rw [run]
  split <;> next heq => rw [heq]

theorem run_of_ended {s' : Session} {ending : Ending} (h : s.step = (.ok (some ending), s')) :
    s.run = (.ok ending, { s' with reader := s'.reader.note (.sessionEnded ending) }) := by
  rw [run_eq, h]

theorem run_of_error {s' : Session} {err : FatalError} (h : s.step = (.error err, s')) :
    s.run = (.error err, s') := by
  rw [run_eq, h]

theorem outcome?_eq_none_iff {result : Except FatalError (Option Ending)} :
    outcome? result = none ↔ result = .ok none := by
  rcases result with err | (- | ending) <;> simp [outcome?]

theorem run_of_none (h : outcome? s.step.1 = none) : s.run = s.step.2.run := by
  rcases hs : s.step with ⟨err | (- | ending), s'⟩ <;> rw [hs] at h <;> cases h
  rw [run_eq, hs]

theorem run_of_some {o : Except FatalError Ending} (h : outcome? s.step.1 = some o) :
    s.run.1 = o ∧ s.run.2.symbols = s.step.2.symbols ∧
      s.run.2.reader.output = s.step.2.reader.output := by
  rcases hs : s.step with ⟨err | (- | ending), s'⟩ <;> rw [hs] at h <;> cases h
  · rw [run_of_error hs]
    exact ⟨rfl, rfl, rfl⟩
  · rw [run_of_ended hs]
    exact ⟨rfl, rfl, rfl⟩

/-- **A session is a conversation on the lines of its input**, with a last word if it has not ended
by then. -/
theorem run_of_unlimited {lines : List (List Char)} (hneeds : s.reader.line.phase.isFinished = true)
    (hroom : s.reader.output.room? = none) (hlines : s.reader.input.lines = lines) :
    let c := converse s.reader.prompt s.symbols lines
    let last := lastWord s.reader.prompt s.reader.input.failure?
    s.run.1 = c.result last ∧ s.run.2.symbols = c.symbols ∧
      s.run.2.reader.output = s.reader.output.extend (c.written last) := by
  induction lines generalizing s with
  | nil =>
    obtain ⟨houtcome, hsymbols, houtput⟩ := step_of_no_line hneeds hroom hlines
    obtain ⟨hrun, hsymbols', houtput'⟩ := run_of_some houtcome
    refine ⟨hrun, hsymbols'.trans hsymbols, houtput'.trans (houtput.trans ?_)⟩
    exact congrArg s.reader.output.extend String.empty_append.symm
  | cons line lines ih =>
    obtain ⟨input, hfetch, hfailure, hrest⟩ := Input.fetch_of_lines_eq_cons hlines
    obtain ⟨hresult, hsymbols, houtput, hprompt, hinput⟩ := step_of_line hneeds hroom hfetch
    cases hreply : outcome? (replyTo s.symbols line).result with
    | some o =>
      obtain ⟨hrun, hsymbols', houtput'⟩ := run_of_some (hresult ▸ hreply)
      rw [converse_of_some hreply]
      exact ⟨hrun, hsymbols'.trans hsymbols, houtput'.trans houtput⟩
    | none =>
      have hnone : outcome? s.step.1 = none := hresult ▸ hreply
      have hneeds' := isFinished_of_step (outcome?_eq_none_iff.mp hnone)
      have hroom' : s.step.2.reader.output.room? = none := by
        rw [houtput]
        exact hroom
      obtain ⟨hrun, hsymbols', houtput'⟩ := ih hneeds' hroom' (by rw [hinput, hrest])
      simp only [hprompt, hinput, hfailure, hsymbols] at hrun hsymbols' houtput'
      rw [converse_of_none hreply, run_of_none hnone]
      refine ⟨hrun, hsymbols', ?_⟩
      rw [houtput', houtput, Output.extend_extend, ← Conversation.written_behind]

/-- **A session that has only the values of the names**: nothing read and nothing written, and no
limit on its output. -/
def fresh (prompt : String) (input : Input) (symbols : SymbolTable) : Session :=
  ⟨TokenReader.new prompt input (Output.empty none), symbols⟩

/-- A fresh session is a conversation on the lines of its input. -/
theorem run_fresh (prompt : String) (input : Input) (symbols : SymbolTable) :
    let c := converse prompt symbols input.lines
    let last := lastWord prompt input.failure?
    let s := (fresh prompt input symbols).run
    s.1 = c.result last ∧ s.2.symbols = c.symbols ∧
      s.2.reader.output.written = (c.written last).toUTF8 := by
  intro c last s
  obtain ⟨hresult, hsymbols, houtput⟩ :=
    run_of_unlimited (s := fresh prompt input symbols) rfl rfl rfl
  refine ⟨hresult, hsymbols, ?_⟩
  rw [show s = (fresh prompt input symbols).run from rfl, houtput]
  exact ByteArray.empty_append

/-- **A session over two inputs put together**, of which the first leaves no line unfinished. It
does what a session over the first does and, if that runs out of lines, then what a session over the
second does on the values that the first has left. -/
theorem run_append_of_complete {a : List UInt8} (h : Input.Complete a) (b : List UInt8)
    (failure? : Option String) (prompt : String) (symbols : SymbolTable) :
    let first := (fresh prompt ⟨a, none⟩ symbols).run
    let second := (fresh prompt ⟨b, failure?⟩ first.2.symbols).run
    let whole := (fresh prompt ⟨a ++ b, failure?⟩ symbols).run
    let stopped := first.1 = .ok .exit ∨
      ∃ text column, first.1 = .error (.invalidNumber text column)
    (first.1 = .ok .endOfInput ∨ stopped) ∧
      (stopped → whole.1 = first.1 ∧ whole.2.symbols = first.2.symbols ∧
        whole.2.reader.output.written = first.2.reader.output.written) ∧
      (first.1 = .ok .endOfInput → ∃ text : String,
        first.2.reader.output.written = (text ++ (prompt ++ "\nBye\n")).toUTF8 ∧
        whole.1 = second.1 ∧ whole.2.symbols = second.2.symbols ∧
        whole.2.reader.output.written = text.toUTF8 ++ second.2.reader.output.written) := by
  intro first second whole stopped
  obtain ⟨hfirst, hsymbols, htext⟩ := run_fresh prompt ⟨a, none⟩ symbols
  obtain ⟨hwhole, hsymbols', htext'⟩ := run_fresh prompt ⟨a ++ b, failure?⟩ symbols
  rw [Input.lines_append h] at hwhole hsymbols' htext'
  cases houtcome : (converse prompt symbols (Input.lines ⟨a, none⟩)).outcome? with
  | some o =>
    -- the first input ends the session, so that the second is not heard
    rw [converse_append_of_some houtcome] at hwhole hsymbols' htext'
    simp only [Conversation.result, Conversation.written, houtcome] at hfirst htext hwhole htext'
    have hstopped : stopped := by
      rw [show stopped = (first.1 = .ok .exit ∨ _) from rfl, hfirst]
      exact outcome?_converse houtcome
    refine ⟨.inr hstopped, fun _ => ⟨hwhole.trans hfirst.symm, hsymbols'.trans hsymbols.symm,
      htext'.trans htext.symm⟩, fun hend => ?_⟩
    rcases hstopped with hexit | ⟨text, column, hinvalid⟩
    · cases hexit.symm.trans hend
    · cases hinvalid.symm.trans hend
  | none =>
    -- the second input is heard on the values that the first has left
    rw [converse_append_of_none houtcome, ← hsymbols] at hwhole hsymbols' htext'
    obtain ⟨hsecond, hsymbols'', htext''⟩ := run_fresh prompt ⟨b, failure?⟩ first.2.symbols
    simp only [Conversation.result, Conversation.written, houtcome, lastWord] at hfirst htext
    have hend : first.1 = .ok .endOfInput := hfirst
    refine ⟨.inl hend, ?_, fun _ => ⟨_, htext, hwhole.trans hsecond.symm,
      hsymbols'.trans hsymbols''.symm, ?_⟩⟩
    · rintro (hexit | ⟨text, column, hinvalid⟩)
      · cases hend.symm.trans hexit
      · cases hend.symm.trans hinvalid
    · rw [htext', htext'', Conversation.written_behind, String.toUTF8_eq_toByteArray,
        String.toByteArray_append]
      rfl

/-- A session over the lines `1` and `exit` goes on behind the first line, and ends with the
second. -/
theorem run_append_twoLines :
    let first := (fresh "" ⟨[49, 10], none⟩ ∅).run
    let second := (fresh "" ⟨[101, 120, 105, 116, 10], none⟩ first.2.symbols).run
    let whole := (fresh "" ⟨[49, 10] ++ [101, 120, 105, 116, 10], none⟩ ∅).run
    Input.Complete [49, 10] ∧ first.1 = .ok .endOfInput ∧ second.1 = .ok .exit ∧
      whole.1 = second.1 ∧ whole.2.symbols = second.2.symbols := by
  intro first second whole
  have hcomplete : Input.Complete [49, 10] := .inr rfl
  have hfirst : first.1 = .ok .endOfInput := by decide +kernel
  have hsecond : second.1 = .ok .exit := by decide +kernel
  obtain ⟨-, -, happend⟩ := run_append_of_complete hcomplete [101, 120, 105, 116, 10] none "" ∅
  obtain ⟨text, -, hwhole, hsymbols, -⟩ := happend hfirst
  exact ⟨hcomplete, hfirst, hsecond, hwhole, hsymbols⟩

end Session

end StackCalculator
