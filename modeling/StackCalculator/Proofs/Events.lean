import StackCalculator.Proofs.Answers

/-!
# Events

What a step does on the streams of a session and on the line at hand, one event after the other. For
this every token is asked for anew, so that another line would be read for a token behind the end of
a line. None ever is: the evaluation of a line comes to the same as that of the rest of a line at
hand.

## Main definitions

* `Event`, `Streams`: what happens, and what it happens to
* `Event.Does`, `Leads`: what an event does and when it can happen, and what some events do
* `LastRead`: the line read last, and the tokens returned since then
* `Session.askedValue`: the evaluation of a line that asks for every token
* `Session.events`, `Session.trace`: the events of a step, and those of some steps

## Main results

* `Leads.pending`: the tokens pending are those of the line read last, without those returned since
* `Session.askedValue_eq_lineValue`: asking for every token makes no difference to a line
* `Session.leads_step`: the events of a step do what the step does
-/

namespace StackCalculator

/-! ## Events and what they do -/

/-- **What happens on the streams of a session and to its line.** -/
inductive Event where
  /-- The prompt is written, as far as it fits. -/
  | prompted
  /-- A line is read, with what the input delivers. -/
  | read (fetched : Fetched)
  /-- A token of the line is returned, with its column. -/
  | returned (token : Token) (column : Nat)
  /-- A text is written, as far as it fits. -/
  | wrote (text : String)
  /-- The rest of the line is dropped. -/
  | dropped
deriving DecidableEq

/-- **The streams of a session**, and the tokens that its line still has to give. -/
structure Streams where
  prompt : String
  input : Input
  output : Output
  pending : List (Token × Nat)

/-- The tokens that a read delivers. -/
def Fetched.tokens : Fetched → List (Token × Nat)
  | line text => lineTokens 0 text
  | exhausted | failed _ => []

namespace Event

/-- A read of the input, whatever it delivers. -/
def isRead : Event → Bool
  | read _ => true
  | _ => false

/-- The token that is returned, if it is one. -/
def token? : Event → Option (Token × Nat)
  | returned t column => some (t, column)
  | _ => none

/-- **What an event does**, and when it can happen. A line is prompted for and read only if no token
is pending, and a token is returned only if it is the first that is. -/
inductive Does : Event → Streams → Streams → Prop
  | prompted {σ : Streams} (h : σ.pending = []) :
      Does .prompted σ { σ with output := (σ.output.write σ.prompt).2 }
  | read {σ : Streams} (h : σ.pending = []) : Does (.read σ.input.fetch.1) σ
      { σ with input := σ.input.fetch.2, pending := σ.input.fetch.1.tokens }
  | returned {σ : Streams} {t : Token} {column : Nat} {rest : List (Token × Nat)}
      (h : σ.pending = (t, column) :: rest) : Does (.returned t column) σ { σ with pending := rest }
  | wrote (σ : Streams) (text : String) :
      Does (.wrote text) σ { σ with output := (σ.output.write text).2 }
  | dropped (σ : Streams) : Does .dropped σ { σ with pending := [] }

end Event

/-- **What some events do**, one after the other. -/
inductive Leads (σ : Streams) : List Event → Streams → Prop
  | nil : Leads σ [] σ
  | concat {events : List Event} {event : Event} {σ₁ σ₂ : Streams} (h : Leads σ events σ₁)
      (hdoes : event.Does σ₁ σ₂) : Leads σ (events ++ [event]) σ₂

section Leads

variable {σ σ₁ σ₂ : Streams} {events more : List Event} {event : Event}

theorem Leads.single (h : event.Does σ σ₁) : Leads σ [event] σ₁ :=
  .concat .nil h

theorem Leads.append (h : Leads σ events σ₁) (hmore : Leads σ₁ more σ₂) :
    Leads σ (events ++ more) σ₂ := by
  induction hmore with
  | nil => rwa [List.append_nil]
  | concat _ hdoes ih =>
    rw [← List.append_assoc]
    exact ih.concat hdoes

/-- Each of the events happens where those before it lead. -/
theorem Leads.split {before behind : List Event} (h : Leads σ events σ₂)
    (hevents : events = before ++ event :: behind) :
    ∃ σ' σ'', Leads σ before σ' ∧ event.Does σ' σ'' := by
  induction h generalizing behind with
  | nil => exact absurd hevents.symm (by simp)
  | concat hbefore hdoes ih =>
    rcases concat_eq_append_cons_iff.mp hevents with ⟨-, rfl, rfl⟩ | ⟨behind', -, hevents'⟩
    · exact ⟨_, _, hbefore, hdoes⟩
    · exact ih hevents'

/-- Several tokens are returned in the order in which they are pending. -/
theorem leads_returned {rest : List (Token × Nat)} : ∀ {taken : List (Token × Nat)} {σ : Streams},
    σ.pending = taken ++ rest →
      Leads σ (taken.map fun x => .returned x.1 x.2) { σ with pending := rest }
  | [], σ, h => by
    have hσ : { σ with pending := rest } = σ := by rw [← List.nil_append rest, ← h]
    rw [hσ]
    exact .nil
  | x :: taken, σ, h => by
    have hfirst : Leads σ [.returned x.1 x.2] { σ with pending := taken ++ rest } :=
      .single (.returned h)
    exact hfirst.append (leads_returned rfl)

/-- **The line read last** in the course of some events, and the tokens returned since then. -/
def LastRead (events : List Event) (text : List Char) (since : List (Token × Nat)) : Prop :=
  ∃ earlier later, events = earlier ++ .read (.line text) :: later ∧
    (∀ event ∈ later, event.isRead = false) ∧ since = later.filterMap Event.token?

theorem lastRead_concat_read (events : List Event) (text : List Char) :
    LastRead (events ++ [.read (.line text)]) text [] :=
  ⟨events, [], rfl, by simp, rfl⟩

/-- An event other than a read leaves the line read last in its place. -/
theorem LastRead.concat {text : List Char} {since : List (Token × Nat)}
    (h : LastRead events text since) (hread : event.isRead = false) :
    LastRead (events ++ [event]) text (since ++ event.token?.toList) := by
  obtain ⟨earlier, later, rfl, hlater, rfl⟩ := h
  refine ⟨earlier, later ++ [event], by simp, ?_, ?_⟩
  · intro event' hmem
    rcases List.mem_append.mp hmem with hmem | hmem
    · exact hlater event' hmem
    · rwa [List.mem_singleton.mp hmem]
  · rw [List.filterMap_append]
    cases event <;> rfl

/-- **The tokens pending are those of the line read last**, without those returned since then. -/
theorem Leads.pending (h : Leads σ events σ₁) (hσ : σ.pending = []) :
    σ₁.pending = [] ∨
      ∃ text since, LastRead events text since ∧ lineTokens 0 text = since ++ σ₁.pending := by
  induction h with
  | nil => exact .inl hσ
  | @concat events event σ₁ σ₂ _ hdoes ih =>
    have hkept : ∀ {p : List (Token × Nat)}, event.isRead = false →
        σ₁.pending = event.token?.toList ++ p → p = [] ∨
          ∃ text since, LastRead (events ++ [event]) text since ∧
            lineTokens 0 text = since ++ p := by
      intro p hread hp
      rcases ih with hnone | ⟨text, since, hlast, htokens⟩
      · exact .inl (List.append_eq_nil_iff.mp (hp.symm.trans hnone)).2
      · exact .inr ⟨text, _, hlast.concat hread, by rw [htokens, hp, List.append_assoc]⟩
    cases hdoes with
    | prompted h => exact .inl h
    | read h =>
      cases hf : σ₁.input.fetch.1 with
      | line text => exact .inr ⟨text, [], lastRead_concat_read events text, rfl⟩
      | exhausted => exact .inl rfl
      | failed reason => exact .inl rfl
    | returned h => exact hkept rfl h
    | wrote => exact hkept rfl rfl
    | dropped => exact .inl rfl

/-- **A token is returned only behind the read of its line**, if no token is pending at first. -/
theorem Leads.exists_lastRead {before behind : List Event} {t : Token} {column : Nat}
    (h : Leads σ events σ₂) (hσ : σ.pending = [])
    (hevents : events = before ++ .returned t column :: behind) :
    ∃ text since, LastRead before text since ∧ since ++ [(t, column)] <+: lineTokens 0 text := by
  obtain ⟨σ', σ'', hbefore, hdoes⟩ := h.split hevents
  obtain ⟨rest, hrest⟩ : ∃ rest, σ'.pending = (t, column) :: rest := by
    cases hdoes with
    | returned h => exact ⟨_, h⟩
  rcases hbefore.pending hσ with hnone | ⟨text, since, hlast, htokens⟩
  · cases hrest.symm.trans hnone
  · refine ⟨text, since, hlast, rest, ?_⟩
    rw [htokens, hrest, List.append_assoc]
    rfl

end Leads

/-! ## The events of a reader -/

namespace TokenReader

/-- The streams of a reader, and the tokens that its line still has to give. -/
def streams (r : TokenReader) : Streams :=
  ⟨r.prompt, r.input, r.output, r.line.pending⟩

/-- **The events of fetching a line**: the prompt, and the read once the prompt is written. -/
def fetchEvents (r : TokenReader) : List Event :=
  match r.write r.prompt with
  | (.ok (), _) => [.prompted, .read r.input.fetch.1]
  | (.error _, _) => [.prompted]

/-- The events of being ready for a token. -/
def readyEvents (r : TokenReader) : List Event :=
  if r.line.phase.isFinished then r.fetchEvents else []

/-- **The events of asking for a token.** -/
def nextEvents (r : TokenReader) : List Event :=
  match r.next with
  | (.ok t, r') => r.readyEvents ++ [.returned t r'.line.column]
  | (.error _, _) => r.readyEvents

theorem streams_write (text : String) (r : TokenReader) :
    (r.write text).2.streams = { r.streams with output := (r.output.write text).2 } := by
  rw [write_eq]
  rfl

theorem readyEvents_of_isFinished {r : TokenReader} (h : r.line.phase.isFinished = true) :
    r.readyEvents = r.fetchEvents :=
  if_pos h

theorem readyEvents_of_not_isFinished {r : TokenReader} (h : r.line.phase.isFinished = false) :
    r.readyEvents = [] := by
  rw [readyEvents, h]
  rfl

/-- A fetch begins with the prompt. -/
theorem prompted_prefix_fetchEvents (r : TokenReader) : [.prompted] <+: r.fetchEvents := by
  rw [fetchEvents]
  split
  · exact ⟨_, rfl⟩
  · exact List.prefix_rfl

/-- A fetch reads once the prompt is written. -/
theorem fetchEvents_of_write {r : TokenReader} (h : (r.write r.prompt).1 = .ok ()) :
    r.fetchEvents = [.prompted, .read r.input.fetch.1] := by
  rw [fetchEvents]
  split
  · rfl
  · next heq => rw [heq] at h; cases h

theorem next_of_ready {r r' : TokenReader} (h : r.ready = (.ok (), r')) :
    r.next = (.ok r'.take.1, r'.take.2) := by
  rw [next, h]

theorem streams_receive {r : TokenReader} (h : r.streams.pending = []) : r.receive.2.streams =
    { r.streams with input := r.input.fetch.2, pending := r.input.fetch.1.tokens } := by
  rw [receive]
  split
  · next hf =>
    rw [hf]
    rfl
  · next hf =>
    rw [hf]
    exact congrArg (Streams.mk _ _ _) h
  · next hf =>
    rw [hf]
    exact congrArg (Streams.mk _ _ _) h

/-- The events of fetching a line do what fetching it does. -/
theorem leads_fetch {r : TokenReader} (h : r.line.phase.isFinished = true) :
    Leads r.streams r.fetchEvents r.fetch.2.streams := by
  have hpending : r.streams.pending = [] := LineCursor.pending_of_isFinished h
  have hprompted : Leads r.streams [.prompted] (r.write r.prompt).2.streams := by
    rw [streams_write]
    exact .single (.prompted hpending)
  have hinput := write_input r.prompt r
  have hline := write_line r.prompt r
  rw [fetch, fetchEvents]
  generalize r.write r.prompt = p at hprompted hinput hline
  obtain ⟨err | u, r'⟩ := p
  · exact hprompted
  · have hpending' : r'.streams.pending = [] := (congrArg LineCursor.pending hline).trans hpending
    have hread := Event.Does.read hpending'
    dsimp only at hinput ⊢
    rw [streams_receive hpending', ← hinput]
    exact hprompted.concat hread

theorem nextEvents_of_ready {r r' : TokenReader} (h : r.ready = (.ok (), r')) :
    r.nextEvents = r.readyEvents ++ [.returned r'.take.1 r'.take.2.line.column] := by
  rw [nextEvents, next_of_ready h]

/-- A line that is not finished is at hand. -/
theorem ready_of_not_isFinished {r : TokenReader} (h : r.line.phase.isFinished = false) :
    r.ready = (.ok (), r) := by
  rw [ready, h]
  rfl

/-- A token that is returned comes from a line at hand. -/
theorem exists_ready_of_next {r r' : TokenReader} {t : Token} (h : r.next = (.ok t, r')) :
    ∃ r₁, r.ready = (.ok (), r₁) ∧ t = r₁.take.1 ∧ r' = r₁.take.2 := by
  rw [next] at h
  split at h
  · next r₁ hr =>
    cases h
    exact ⟨r₁, hr, rfl, rfl⟩
  · cases h

/-- A token other than the end of a line leaves less of the input, or less of the line. -/
theorem next_lt {r r' : TokenReader} {t : Token} (h : r.next = (.ok t, r')) (ht : t ≠ .endOfLine) :
    Prod.Lex (· < ·) (· < ·) (r'.input.bytes.length, r'.line.remaining)
      (r.input.bytes.length, r.line.remaining) := by
  obtain ⟨r₁, hready, rfl, rfl⟩ := exists_ready_of_next h
  rw [ready] at hready
  split at hready
  · refine .left _ _ ?_
    have hlt := length_fetch_lt (r := r) (by rw [hready])
    rwa [hready] at hlt
  · cases hready
    exact .right _ (LineCursor.remaining_take_lt ht)

/-- The events of being ready for a token do what being ready does. -/
theorem leads_ready (r : TokenReader) : Leads r.streams r.readyEvents r.ready.2.streams := by
  rw [ready, readyEvents]
  split
  · next hf => exact leads_fetch hf
  · exact .nil

end TokenReader

namespace Session

open Evaluation

/-! ## Asking for every token -/

/-- **The rest of a line, with every token asked for**, and the events of this. It would read
another line for a token behind the end of the line. -/
def askedValue (e : Evaluation) (r : TokenReader) :
    (Except Interrupt Float × Session) × List Event :=
  match _ : r.next with
  | (.error i, r') => ((.error i, ⟨r', e.symbols⟩), r.nextEvents)
  | (.ok t, r') =>
    match _ : e.feed t r'.line.column with
    | .next e' remark? =>
      let (value, events) := askedValue e' (r'.noteAny remark?)
      (value, r.nextEvents ++ events)
    | .done x symbols remark => ((.ok x, ⟨r'.note remark, symbols⟩), r.nextEvents)
    | .stopped i => ((.error i, ⟨r', e.symbols⟩), r.nextEvents)
termination_by (r.input.bytes.length, r.line.remaining)
decreasing_by
  rw [TokenReader.noteAny_input, TokenReader.noteAny_line]
  exact TokenReader.next_lt ‹_› (ne_endOfLine_of_next ‹_›)

/-- **Asking for every token makes no difference**: no line but the one at hand is read, and its
tokens are returned one after the other. -/
theorem askedValue_of_ready (e : Evaluation) (r : TokenReader) :
    ∀ r₁ : TokenReader, r.ready = (.ok (), r₁) → ∃ taken x,
      askedValue e r =
        (restValue e r₁, r.readyEvents ++ (taken ++ [x]).map fun x => .returned x.1 x.2) ∧
      r₁.line.pending = taken ++ x :: (restValue e r₁).2.reader.line.pending := by
  fun_induction askedValue e r with
  | case1 e r i r' hnext =>
    intro r₁ hready
    cases hnext.symm.trans (TokenReader.next_of_ready hready)
  | case2 e r t r' hnext e' remark? hfeed value events hvalue ih =>
    intro r₁ hready
    cases hnext.symm.trans (TokenReader.next_of_ready hready)
    have hopen := TokenReader.not_isFinished_noteAny_take (ne_endOfLine_of_next hfeed) remark?
    obtain ⟨taken, x, heq, hpending⟩ := ih _ (TokenReader.ready_of_not_isFinished hopen)
    rw [TokenReader.readyEvents_of_not_isFinished hopen, List.nil_append] at heq
    obtain ⟨rfl, rfl⟩ := Prod.mk.inj (hvalue.symm.trans heq)
    rw [TokenReader.noteAny_line] at hpending
    refine ⟨(r₁.take.1, r₁.take.2.line.column) :: taken, x, ?_, ?_⟩
    · rw [restValue_of_next hfeed, TokenReader.nextEvents_of_ready hready, List.append_assoc]
      rfl
    · rw [TokenReader.pending_take (TokenReader.not_isFinished_of_ready hready), hpending,
        restValue_of_next hfeed, List.cons_append]
  | case3 e r t r' hnext x symbols remark hfeed =>
    intro r₁ hready
    cases hnext.symm.trans (TokenReader.next_of_ready hready)
    refine ⟨[], (r₁.take.1, r₁.take.2.line.column), ?_, ?_⟩
    · rw [restValue_of_done hfeed, TokenReader.nextEvents_of_ready hready]
      rfl
    · rw [restValue_of_done hfeed]
      exact TokenReader.pending_take (TokenReader.not_isFinished_of_ready hready)
  | case4 e r t r' hnext i hfeed =>
    intro r₁ hready
    cases hnext.symm.trans (TokenReader.next_of_ready hready)
    refine ⟨[], (r₁.take.1, r₁.take.2.line.column), ?_, ?_⟩
    · rw [restValue_of_stopped hfeed, TokenReader.nextEvents_of_ready hready]
      rfl
    · rw [restValue_of_stopped hfeed]
      exact TokenReader.pending_take (TokenReader.not_isFinished_of_ready hready)

/-- Where no line can be had, no token is asked for again. -/
theorem askedValue_of_error {e : Evaluation} {r r₁ : TokenReader} {i : Interrupt}
    (h : r.ready = (.error i, r₁)) :
    askedValue e r = ((.error i, ⟨r₁, e.symbols⟩), r.readyEvents) := by
  have hnext : r.next = (.error i, r₁) := by rw [TokenReader.next, h]
  have hevents : r.nextEvents = r.readyEvents := by rw [TokenReader.nextEvents, hnext]
  rw [askedValue]
  split
  · next heq =>
    cases hnext.symm.trans heq
    rw [hevents]
  · next heq => cases hnext.symm.trans heq

/-- **A line has the value that it has with every token asked for.** -/
theorem askedValue_eq_lineValue (s : Session) :
    (askedValue (Evaluation.start s.symbols) s.reader).1 = s.lineValue := by
  rw [lineValue]
  rcases hready : s.reader.ready with ⟨i | u, r⟩
  · rw [askedValue_of_error hready]
    rfl
  · obtain ⟨taken, x, heq, -⟩ := askedValue_of_ready (Evaluation.start s.symbols) s.reader r hready
    rw [heq]

/-! ## The events of a step -/

/-- The events of the answer to a line. The rest of a line that failed is dropped once the
diagnostic is written. -/
def answerEvents (value : Except Interrupt Float) (s : Session) : List Event :=
  match value with
  | .ok x => [.wrote (Layout.answer.write x ++ "\n")]
  | .error (.failed d) =>
    let text := diagnosticText d s.reader.line.text
    match s.reader.output.write text with
    | (.ok (), _) => [.wrote text, .dropped, .wrote absenceText]
    | (.error _, _) => [.wrote text]
  | .error (.ended ending) => [.wrote (closingText ending)]
  | .error (.fatal _) => []

/-- **The events of a step.** -/
def events (s : Session) : List Event :=
  let ((value, s'), asked) := askedValue (Evaluation.start s.symbols) s.reader
  asked ++ answerEvents value s'

/-- **The events of some steps**, also if the session should have ended before. -/
def trace (s : Session) : Nat → List Event
  | 0 => []
  | n + 1 => s.trace n ++ (s.after n).events

variable {s : Session}

theorem leads_write (text : String) (s : Session) :
    Leads s.reader.streams [.wrote text] (s.write text).2.reader.streams := by
  rw [write_eq]
  exact .single (.wrote s.reader.streams text)

/-- The events of the answer to a line that failed do what the answer does. -/
theorem leads_answerFailure (d : Diagnostic) (s : Session) :
    Leads s.reader.streams (answerEvents (.error (.failed d)) s)
      (s.answerFailure d).2.reader.streams := by
  have hwrote : Leads s.reader.streams [.wrote (diagnosticText d s.reader.line.text)]
      { s.reader.streams with
        output := (s.reader.output.write (diagnosticText d s.reader.line.text)).2 } :=
    .single (.wrote s.reader.streams _)
  rw [answerFailure_eq, answerEvents]
  generalize s.reader.output.write (diagnosticText d s.reader.line.text) = p at hwrote ⊢
  obtain ⟨reason | u, output⟩ := p
  · exact hwrote
  · exact (hwrote.concat (.dropped _)).append (leads_write absenceText { s with
      reader := { s.reader.note (.lineFailed d) with output, line := s.reader.line.dropRest } })

/-- The events of the answer to a line do what the answer does. -/
theorem leads_answer (s : Session) :
    Leads s.lineValue.2.reader.streams (answerEvents s.lineValue.1 s.lineValue.2)
      s.step.2.reader.streams := by
  rw [step_eq_answer]
  match s.lineValue.1 with
  | .ok x => exact leads_write _ _
  | .error (.failed d) => exact leads_answerFailure d _
  | .error (.ended ending) => exact leads_write _ _
  | .error (.fatal err) => exact .nil

/-- The events of a line that is at hand, or that is fetched. -/
theorem events_of_ready {r : TokenReader} (h : s.reader.ready = (.ok (), r)) :
    ∃ taken x, r.line.pending = taken ++ x :: s.lineValue.2.reader.line.pending ∧
      s.events = s.reader.readyEvents ++ ((taken ++ [x]).map fun x => .returned x.1 x.2) ++
        answerEvents s.lineValue.1 s.lineValue.2 := by
  obtain ⟨taken, x, heq, hpending⟩ :=
    askedValue_of_ready (Evaluation.start s.symbols) s.reader r h
  rw [← lineValue_of_ready h] at heq hpending
  refine ⟨taken, x, hpending, ?_⟩
  rw [events, heq]

/-- The events of a step that can have no line. -/
theorem events_of_error {r : TokenReader} {i : Interrupt} (h : s.reader.ready = (.error i, r)) :
    s.events = s.reader.readyEvents ++ answerEvents s.lineValue.1 s.lineValue.2 := by
  rw [events, askedValue_of_error h, lineValue, h]
  rfl

/-- The evaluation of a line at hand changes nothing but the tokens pending. -/
theorem streams_restValue (e : Evaluation) (r : TokenReader) : (restValue e r).2.reader.streams =
    { r.streams with pending := (restValue e r).2.reader.line.pending } := by
  obtain ⟨hprompt, houtput, -⟩ := restValue_frame e r
  rw [TokenReader.streams, hprompt, houtput, restValue_input]
  rfl

/-- **The events of a step do what the step does.** -/
theorem leads_step (s : Session) : Leads s.reader.streams s.events s.step.2.reader.streams := by
  have hready := TokenReader.leads_ready s.reader
  have hanswer := leads_answer s
  rcases heq : s.reader.ready with ⟨i | u, r⟩
  · rw [heq] at hready
    rw [events_of_error heq]
    refine hready.append ?_
    rwa [lineValue, heq] at hanswer ⊢
  · rw [heq] at hready
    obtain ⟨taken, x, hpending, hevents⟩ := events_of_ready heq
    have htaken : Leads r.streams ((taken ++ [x]).map fun x => .returned x.1 x.2)
        s.lineValue.2.reader.streams := by
      rw [lineValue_of_ready heq] at hpending ⊢
      rw [streams_restValue]
      exact leads_returned (by rw [List.append_assoc]; exact hpending)
    rw [hevents]
    exact (hready.append htaken).append hanswer

/-- **The events of some steps do what the steps do.** -/
theorem leads_trace (s : Session) (n : Nat) :
    Leads s.reader.streams (s.trace n) (s.after n).reader.streams := by
  induction n with
  | zero => exact .nil
  | succ n ih => exact ih.append (leads_step _)

end Session

end StackCalculator
