import StackCalculator.Proofs.Conversation
import StackCalculator.Proofs.Tape

/-!
# What a session gets from its input

A session meets its input in reads, and each read delivers a line or meets the end. So two inputs
that deliver the same lines cannot be told apart before the lines have run out, and not even then if
the same stands behind them: whatever is asked of two readers, and whatever steps two sessions take,
the two differ in nothing but the bytes that their inputs still hold.

The lines of an input that fails are those that a line feed ends. So a failure loses the unfinished
line and nothing else: up to there the session is the one that has no such line and comes to the
end.

## Main definitions

* `TokenReader.Alike`, `Session.Alike`: readers and sessions that differ in their inputs at most
* `Session.steps`: the number of steps of a run
* `Input.finishedPart bytes`: the bytes up to the last line feed

## Main results

* `Session.Alike.step`: sessions that get the same lines stay alike
* `Session.Alike.run`: they end alike, or run out of lines alike
* `Session.run_of_failure`: a failure loses only the unfinished line
-/

namespace StackCalculator

namespace Input

/-! ## Inputs that deliver the same lines -/

variable {i j : Input}

theorem fetch_failure? (i : Input) : i.fetch.2.failure? = i.failure? := by
  rcases i.fetch_cases with ⟨text, bytes, hf⟩ | ⟨-, -, hf⟩ | ⟨reason, -, hf⟩ <;> rw [hf]

/-- Where there are no more lines, a read leaves none. -/
theorem lines_fetch_of_lines_eq_nil (h : i.lines = []) : i.fetch.2.lines = [] := by
  rcases fetch_of_lines_eq_nil h with ⟨-, hf⟩ | ⟨reason, -, hf⟩
  · rwa [hf]
  · rw [hf]
    exact lines_nil i.failure?

/-- **Inputs with the same lines deliver the same**, as long as there are lines, and at the end of
them if the same stands behind them. -/
theorem fetch_congr (h : i.lines = j.lines) (hend : i.lines = [] → i.failure? = j.failure?) :
    i.fetch.1 = j.fetch.1 ∧ i.fetch.2.lines = j.fetch.2.lines := by
  cases hi : i.lines with
  | nil =>
    have hj : j.lines = [] := h ▸ hi
    refine ⟨?_, (lines_fetch_of_lines_eq_nil hi).trans (lines_fetch_of_lines_eq_nil hj).symm⟩
    rcases fetch_of_lines_eq_nil hi with ⟨hnone, hf⟩ | ⟨reason, hreason, hf⟩ <;>
      rcases fetch_of_lines_eq_nil hj with ⟨hnone', hf'⟩ | ⟨reason', hreason', hf'⟩ <;>
      have hsame := hend hi
    · rw [hf, hf']
    · rw [hnone, hreason'] at hsame
      cases hsame
    · rw [hreason, hnone'] at hsame
      cases hsame
    · rw [hreason, hreason'] at hsame
      cases hsame
      rw [hf, hf']
  | cons text more =>
    obtain ⟨i', hf, -, hmore⟩ := fetch_of_lines_eq_cons hi
    obtain ⟨j', hf', -, hmore'⟩ := fetch_of_lines_eq_cons (h ▸ hi)
    rw [hf, hf']
    exact ⟨rfl, hmore.trans hmore'.symm⟩

end Input

/-! ## Readers that get the same lines -/

namespace TokenReader

/-- **Readers that differ in their inputs at most**, and not in the lines that these deliver. -/
structure Alike (r r' : TokenReader) : Prop where
  prompt : r.prompt = r'.prompt
  output : r.output = r'.output
  line : r.line = r'.line
  journal : r.journal = r'.journal
  lines : r.input.lines = r'.input.lines

/-- Being ready for a token leaves what stands behind the input. -/
theorem ready_failure? (r : TokenReader) : r.ready.2.input.failure? = r.input.failure? := by
  rw [ready]
  split
  · rw [fetch]
    have hinput := write_input r.prompt r
    rcases hw : r.write r.prompt with ⟨err | u, r₁⟩ <;> rw [hw] at hinput <;> dsimp only at hinput ⊢
    · rw [hinput]
    · rw [← hinput, ← r₁.input.fetch_failure?, receive]
      split <;> next hf => simp [hf]
  · rfl

namespace Alike

variable {r r' : TokenReader}

/-- One of two readers that are alike is the other on its own input. -/
theorem eq_on (h : r.Alike r') : r' = r.on r'.input r.output := by
  obtain ⟨prompt, input, output, line, journal⟩ := r
  obtain ⟨hprompt, houtput, hline, hjournal, -⟩ := h
  dsimp only at hprompt houtput hline hjournal
  subst hprompt houtput hline hjournal
  rfl

theorem note (h : r.Alike r') (remark : Remark) : (r.note remark).Alike (r'.note remark) :=
  ⟨h.prompt, h.output, h.line, congrArg (remark :: ·) h.journal, h.lines⟩

/-- Writing keeps readers alike. -/
theorem write (h : r.Alike r') (text : String) :
    (r.write text).1 = (r'.write text).1 ∧ (r.write text).2.Alike (r'.write text).2 := by
  rw [write_eq, write_eq, h.output]
  exact ⟨rfl, h.prompt, rfl, h.line, h.journal, h.lines⟩

/-- Reading a line keeps readers alike. -/
theorem receive (h : r.Alike r')
    (hend : r.input.lines = [] → r.input.failure? = r'.input.failure?) :
    r.receive.1 = r'.receive.1 ∧ r.receive.2.Alike r'.receive.2 := by
  obtain ⟨hfetched, hlines⟩ := Input.fetch_congr h.lines hend
  simp only [TokenReader.receive]
  rcases hi : r.input.fetch with ⟨fetched, i⟩
  rcases hj : r'.input.fetch with ⟨fetched', j⟩
  rw [hi, hj] at hfetched hlines
  obtain rfl : fetched = fetched' := hfetched
  cases fetched with
  | line text =>
    exact ⟨rfl, h.prompt, h.output, rfl, congrArg (_ :: ·) h.journal, hlines⟩
  | exhausted => exact ⟨rfl, h.prompt, h.output, h.line, congrArg (_ :: ·) h.journal, hlines⟩
  | failed reason => exact ⟨rfl, h.prompt, h.output, h.line, h.journal, hlines⟩

/-- **Being ready for a token keeps readers alike.** -/
theorem ready (h : r.Alike r') (hend : r.input.lines = [] → r.input.failure? = r'.input.failure?) :
    r.ready.1 = r'.ready.1 ∧ r.ready.2.Alike r'.ready.2 := by
  simp only [TokenReader.ready, ← h.line]
  split
  · obtain ⟨hresult, hwritten⟩ := h.write r.prompt
    have hinput := write_input r.prompt r
    have hinput' := write_input r.prompt r'
    simp only [TokenReader.fetch, ← h.prompt]
    rcases hw : r.write r.prompt with ⟨err | u, r₁⟩ <;>
      rcases hw' : r'.write r.prompt with ⟨err' | u', r₁'⟩ <;>
      rw [hw, hw'] at hresult hwritten <;>
      rw [hw] at hinput <;> rw [hw'] at hinput' <;> cases hresult
    · exact ⟨rfl, hwritten⟩
    · exact hwritten.receive (by rwa [hinput, hinput'])
  · exact ⟨rfl, h⟩

/-- Taking a token keeps readers alike. -/
theorem take (h : r.Alike r') : r.take.1 = r'.take.1 ∧ r.take.2.Alike r'.take.2 := by
  rw [h.eq_on]
  exact ⟨rfl, rfl, rfl, rfl, rfl, h.lines⟩

/-- **Asking for a token keeps readers alike.** -/
theorem next (h : r.Alike r') (hend : r.input.lines = [] → r.input.failure? = r'.input.failure?) :
    r.next.1 = r'.next.1 ∧ r.next.2.Alike r'.next.2 := by
  obtain ⟨hresult, hready⟩ := h.ready hend
  rw [TokenReader.next, TokenReader.next]
  rcases hr : r.ready with ⟨i | u, r₁⟩ <;> rcases hr' : r'.ready with ⟨i' | u', r₁'⟩ <;>
    rw [hr, hr'] at hresult hready <;> cases hresult
  · exact ⟨rfl, hready⟩
  · obtain ⟨htoken, htaken⟩ := hready.take
    exact ⟨congrArg Except.ok htoken, htaken⟩

/-- **A call keeps readers alike**, and they answer it alike. -/
theorem perform (h : r.Alike r') (hend : r.input.lines = [] → r.input.failure? = r'.input.failure?)
    (call : ReaderCall) :
    (r.perform call).1 = (r'.perform call).1 ∧ (r.perform call).2.Alike (r'.perform call).2 := by
  match call with
  | .next =>
    obtain ⟨htoken, hnext⟩ := h.next hend
    exact ⟨congrArg some htoken, hnext⟩
  | .putBack =>
    exact ⟨rfl, h.prompt, h.output, congrArg LineCursor.putBack h.line, h.journal, h.lines⟩
  | .dropRest =>
    exact ⟨rfl, h.prompt, h.output, congrArg LineCursor.dropRest h.line, h.journal, h.lines⟩

end Alike

end TokenReader

namespace Session

open Evaluation

/-! ## Sessions that get the same lines -/

/-- **Sessions that differ in their inputs at most**, and not in the lines that these deliver. -/
structure Alike (s t : Session) : Prop where
  reader : s.reader.Alike t.reader
  symbols : s.symbols = t.symbols

variable {s t : Session}

/-- A session is alike to itself on an input that delivers the same lines. -/
theorem alike_on {input : Input} (h : s.reader.input.lines = input.lines) :
    s.Alike (s.on input s.reader.output) :=
  ⟨⟨rfl, rfl, rfl, rfl, h⟩, rfl⟩

/-- The evaluation of a line keeps readers alike. -/
theorem restValue_alike {r r' : TokenReader} (h : r.Alike r') (e : Evaluation) :
    (restValue e r).1 = (restValue e r').1 ∧ (restValue e r).2.Alike (restValue e r').2 := by
  obtain ⟨-, houtput, -⟩ := restValue_frame e r
  rw [h.eq_on, restValue_on, ← houtput]
  exact ⟨rfl, alike_on (by rw [restValue_input, h.lines])⟩

namespace Alike

/-- **Evaluating a line keeps sessions alike.** -/
theorem lineValue (h : s.Alike t)
    (hend : s.reader.input.lines = [] → s.reader.input.failure? = t.reader.input.failure?) :
    s.lineValue.1 = t.lineValue.1 ∧ s.lineValue.2.Alike t.lineValue.2 := by
  obtain ⟨hresult, hreader⟩ := h.reader.ready hend
  rw [Session.lineValue, Session.lineValue, ← h.symbols]
  rcases hs : s.reader.ready with ⟨i | u, r⟩ <;> rcases ht : t.reader.ready with ⟨i' | u', r'⟩ <;>
    rw [hs, ht] at hresult hreader <;> cases hresult
  · exact ⟨rfl, hreader, rfl⟩
  · exact restValue_alike hreader _

theorem write (h : s.Alike t) (text : String) :
    (s.write text).1 = (t.write text).1 ∧ (s.write text).2.Alike (t.write text).2 := by
  obtain ⟨hresult, hreader⟩ := h.reader.write text
  exact ⟨hresult, hreader, h.symbols⟩

/-- Reporting a failure keeps sessions alike. -/
theorem answerFailure (h : s.Alike t) (d : Diagnostic) :
    (s.answerFailure d).1 = (t.answerFailure d).1 ∧
      (s.answerFailure d).2.Alike (t.answerFailure d).2 := by
  obtain ⟨hprompt, houtput, hline, hjournal, hlines⟩ := h.reader.note (.lineFailed d)
  have hdropped : ∀ output, Session.Alike
      { s with reader := { s.reader.note (.lineFailed d) with
        output, line := s.reader.line.dropRest } }
      { t with reader := { t.reader.note (.lineFailed d) with
        output, line := t.reader.line.dropRest } } :=
    fun _ => ⟨⟨hprompt, rfl, congrArg LineCursor.dropRest hline, hjournal, hlines⟩, h.symbols⟩
  rw [answerFailure_eq, answerFailure_eq, h.reader.output, h.reader.line]
  rcases t.reader.output.write (diagnosticText d t.reader.line.text) with ⟨reason | u, output⟩
  · exact ⟨rfl, ⟨hprompt, rfl, hline, hjournal, hlines⟩, h.symbols⟩
  · have hwritten := (hdropped output).write absenceText
    rwa [h.reader.line] at hwritten

/-- Answering a line keeps sessions alike. -/
theorem answer (h : s.Alike t) (value : Except Interrupt Float) :
    (answer value s).1 = (answer value t).1 ∧ (answer value s).2.Alike (answer value t).2 := by
  match value with
  | .ok x =>
    obtain ⟨hresult, halike⟩ := h.write (Layout.answer.write x ++ "\n")
    exact ⟨congrArg (Except.map fun _ => none) hresult, halike⟩
  | .error (.failed d) =>
    obtain ⟨hresult, halike⟩ := h.answerFailure d
    exact ⟨congrArg (Except.map fun _ => none) hresult, halike⟩
  | .error (.ended ending) =>
    obtain ⟨hresult, halike⟩ := h.write (closingText ending)
    exact ⟨congrArg (Except.map fun _ => some ending) hresult, halike⟩
  | .error (.fatal err) => exact ⟨rfl, h⟩

/-- **A step keeps sessions alike.** -/
theorem step (h : s.Alike t)
    (hend : s.reader.input.lines = [] → s.reader.input.failure? = t.reader.input.failure?) :
    s.step.1 = t.step.1 ∧ s.step.2.Alike t.step.2 := by
  obtain ⟨hvalue, halike⟩ := h.lineValue hend
  rw [step_eq_answer, step_eq_answer, ← hvalue]
  exact halike.answer _

end Alike

/-- A step leaves what stands behind the input. -/
theorem step_failure? (s : Session) : s.step.2.reader.input.failure? = s.reader.input.failure? := by
  rw [step_reader_input, ← TokenReader.ready_failure? s.reader, lineValue]
  rcases s.reader.ready with ⟨i | u, r⟩
  · rfl
  · exact congrArg Input.failure? (restValue_input _ r)

/-- What stands behind the input stays there. -/
theorem failure?_after (s : Session) (n : Nat) :
    (s.after n).reader.input.failure? = s.reader.input.failure? := by
  induction n with
  | zero => rfl
  | succ n ih => rw [Session.after, step_failure?, ih]

/-- **Sessions that get the same lines stay alike**, if the same stands behind their inputs, and all
their steps have the same results. -/
theorem Alike.after (h : s.Alike t) (hsame : s.reader.input.failure? = t.reader.input.failure?)
    (n : Nat) : (s.after n).step.1 = (t.after n).step.1 ∧ (s.after n).Alike (t.after n) := by
  have hstep : ∀ m, (s.after m).Alike (t.after m) →
      (s.after m).step.1 = (t.after m).step.1 ∧ (s.after m).step.2.Alike (t.after m).step.2 :=
    fun m halike => halike.step fun _ => by rw [failure?_after, failure?_after, hsame]
  have halike : (s.after n).Alike (t.after n) := by
    induction n with
    | zero => exact h
    | succ n ih => exact (hstep n ih).2
  exact ⟨(hstep n halike).1, halike⟩

/-! ## Whole runs -/

/-- **The number of steps of a run**, the last one included. -/
def steps (s : Session) : Nat :=
  match _ : s.step with
  | (.ok none, s') => s'.steps + 1
  | (.ok (some _), _) | (.error _, _) => 1
termination_by s.weight
decreasing_by
  have hs : s.step = (.ok none, s') := ‹_›
  have := weight_step_lt (s := s) (by rw [hs])
  rwa [hs] at this

theorem steps_of_none (h : s.step.1 = .ok none) : s.steps = s.step.2.steps + 1 := by
  rw [steps]
  split
  · next heq => rw [heq]
  · next heq => rw [heq] at h; cases h
  · next heq => rw [heq] at h; cases h

theorem steps_of_ne_none (h : s.step.1 ≠ .ok none) : s.steps = 1 := by
  rw [steps]
  split
  · next heq => exact absurd (by rw [heq]) h
  · rfl
  · rfl

/-- **A run comes to its end with its last step**, before which the session goes on. -/
theorem exists_last_step (s : Session) :
    ∃ n, s.steps = n + 1 ∧ (∀ m < n, (s.after m).step.1 = .ok none) ∧
    outcome? (s.after n).step.1 = some s.run.1 ∧ s.run.2.symbols = (s.after (n + 1)).symbols := by
  fun_induction Session.run s with
  | case1 s t hs ih =>
    obtain ⟨n, hsteps, hgoes, hlast, hsymbols⟩ := ih
    have hnone : s.step.1 = .ok none := by rw [hs]
    have hafter : ∀ m, s.after (m + 1) = t.after m := fun m => by rw [after_step, hs]
    refine ⟨n + 1, ?_, fun m hm => ?_, ?_, ?_⟩
    · rw [steps_of_none hnone, hs, hsteps]
    · cases m with
      | zero => exact hnone
      | succ m =>
        rw [hafter]
        exact hgoes m (Nat.lt_of_succ_lt_succ hm)
    · rw [hafter, hlast]
    · rw [hafter, hsymbols]
  | case2 s ending t hs =>
    refine ⟨0, steps_of_ne_none (by rw [hs]; simp), fun m hm => absurd hm (Nat.not_lt_zero m),
      ?_, ?_⟩
    · rw [after, hs]
      rfl
    · rw [after, after, hs]
  | case3 s err t hs =>
    refine ⟨0, steps_of_ne_none (by rw [hs]; simp), fun m hm => absurd hm (Nat.not_lt_zero m),
      ?_, ?_⟩
    · rw [after, hs]
      rfl
    · rw [after, after, hs]

/-- **Sessions that get the same lines run alike**, if the same stands behind their inputs. -/
theorem Alike.run (h : s.Alike t) (hsame : s.reader.input.failure? = t.reader.input.failure?) :
    s.run.1 = t.run.1 ∧ s.run.2.Alike t.run.2 ∧ s.steps = t.steps := by
  fun_induction Session.run s generalizing t with
  | case1 s s' hs ih =>
    obtain ⟨hresult, halike⟩ := h.step fun _ => hsame
    have hfailure := step_failure? s
    rw [hs] at hresult halike hfailure
    have hnone : t.step.1 = .ok none := hresult.symm
    rw [run_of_none (outcome?_eq_none_iff.mpr hnone), steps_of_none hnone,
      steps_of_none (by rw [hs])]
    obtain ⟨hrun, halike', hsteps⟩ := ih halike (by rw [step_failure?, ← hsame, ← hfailure])
    exact ⟨hrun, halike', by rw [hs, ← hsteps]⟩
  | case2 s ending s' hs =>
    obtain ⟨hresult, halike⟩ := h.step fun _ => hsame
    rcases ht : t.step with ⟨result, t'⟩
    rw [hs, ht] at hresult halike
    obtain rfl : .ok (some ending) = result := hresult
    rw [run_of_ended ht, steps_of_ne_none (by rw [hs]; simp), steps_of_ne_none (by rw [ht]; simp)]
    exact ⟨rfl, ⟨halike.reader.note _, halike.symbols⟩, rfl⟩
  | case3 s err s' hs =>
    obtain ⟨hresult, halike⟩ := h.step fun _ => hsame
    rcases ht : t.step with ⟨result, t'⟩
    rw [hs, ht] at hresult halike
    obtain rfl : .error err = result := hresult
    rw [run_of_error ht, steps_of_ne_none (by rw [hs]; simp), steps_of_ne_none (by rw [ht]; simp)]
    exact ⟨rfl, halike, rfl⟩

/-! ## Inputs that fail -/

/-- **A session that has no more lines** comes to its end, if the input is exhausted. -/
theorem step_of_exhausted {input : Input} (hneeds : s.reader.line.phase.isFinished = true)
    (hroom : s.reader.output.room? = none) (hfetch : s.reader.input.fetch = (.exhausted, input)) :
    s.step = (.ok (some .endOfInput), { s with reader := { s.reader with
      input
      output := (s.reader.output.extend s.reader.prompt).extend (closingText .endOfInput)
      journal := .inputExhausted :: s.reader.journal } }) := by
  have hready : s.reader.ready = (.error (.ended .endOfInput),
      (s.reader.on input (s.reader.output.extend s.reader.prompt)).note .inputExhausted) := by
    rw [TokenReader.ready, if_pos hneeds, TokenReader.fetch, TokenReader.write_of_unlimited hroom]
    simp only [TokenReader.receive, hfetch]
    rfl
  rw [step_eq_answer, lineValue, hready]
  simp only [answer]
  rw [write_of_unlimited (by exact hroom)]
  rfl

/-- **A session that has no more lines** breaks down, if the input has failed. -/
theorem step_of_failed {input : Input} {reason : String}
    (hneeds : s.reader.line.phase.isFinished = true) (hroom : s.reader.output.room? = none)
    (hfetch : s.reader.input.fetch = (.failed reason, input)) :
    s.step = (.error (.stream reason),
      s.on input (s.reader.output.extend s.reader.prompt)) := by
  have hready : s.reader.ready = (.error (.fatal (.stream reason)),
      s.reader.on input (s.reader.output.extend s.reader.prompt)) := by
    rw [TokenReader.ready, if_pos hneeds, TokenReader.fetch, TokenReader.write_of_unlimited hroom]
    simp only [TokenReader.receive, hfetch]
    rfl
  rw [step_eq_answer, lineValue, hready]
  rfl

/-- **How a line ends a run**: with `exit`, or over a text that is no number. -/
def Stopped (o : Except FatalError Ending) : Prop :=
  o = .ok .exit ∨ ∃ text column, o = .error (.invalidNumber text column)

/-- **A run over an input that fails**, beside one that gets the same lines and comes to the end.
They are alike, unless both run out of lines. -/
theorem Alike.run_cases {reason : String} (h : s.Alike t)
    (hneeds : s.reader.line.phase.isFinished = true) (hroom : s.reader.output.room? = none)
    (hnone : s.reader.input.failure? = none) (hreason : t.reader.input.failure? = some reason) :
    (Stopped s.run.1 ∧ t.run.1 = s.run.1 ∧ s.run.2.Alike t.run.2) ∨
      (s.run.1 = .ok .endOfInput ∧ t.run.1 = .error (.stream reason) ∧
        t.run.2.symbols = s.run.2.symbols ∧
        s.run.2.reader.output = t.run.2.reader.output.extend (closingText .endOfInput) ∧
        s.run.2.reader.journal =
          .sessionEnded .endOfInput :: .inputExhausted :: t.run.2.reader.journal) := by
  induction hlines : s.reader.input.lines generalizing s t with
  | nil =>
    -- one input is exhausted where the other fails
    rcases Input.fetch_of_lines_eq_nil hlines with ⟨-, hfetch⟩ | ⟨reason', hreason', -⟩
    · rcases Input.fetch_of_lines_eq_nil (h.reader.lines ▸ hlines) with
        ⟨hnone', -⟩ | ⟨reason', hreason', hfetch'⟩
      · cases hnone'.symm.trans hreason
      · cases hreason'.symm.trans hreason
        rw [run_of_ended (step_of_exhausted hneeds hroom hfetch), run_of_error
          (step_of_failed (h.reader.line ▸ hneeds) (h.reader.output ▸ hroom) hfetch')]
        refine .inr ⟨rfl, rfl, h.symbols.symm, ?_, ?_⟩
        · rw [h.reader.output, h.reader.prompt]
          rfl
        · exact congrArg (_ :: _ :: ·) h.reader.journal
    · cases hreason'.symm.trans hnone
  | cons line lines ih =>
    obtain ⟨input, hfetch, -, hmore⟩ := Input.fetch_of_lines_eq_cons hlines
    obtain ⟨hreply, -, houtput, -, hinput⟩ := step_of_line hneeds hroom hfetch
    obtain ⟨hresult, halike⟩ := h.step fun hnil => by cases hlines.symm.trans hnil
    have hstopped : ∀ o, outcome? s.step.1 = some o → Stopped o :=
      fun o ho => outcome?_replyTo (hreply ▸ ho)
    rcases hs : s.step with ⟨err | (- | ending), s'⟩
    · -- the line breaks both runs down
      rcases ht : t.step with ⟨result, t'⟩
      rw [hs, ht] at hresult halike
      obtain rfl : .error err = result := hresult
      rw [run_of_error hs, run_of_error ht]
      exact .inl ⟨hstopped _ (by rw [hs]; rfl), rfl, halike⟩
    · -- both runs go on
      have hgoes : s.step.1 = .ok none := by rw [hs]
      have hrun : s.run = s.step.2.run := run_of_none (outcome?_eq_none_iff.mpr hgoes)
      have hrun' : t.run = t.step.2.run :=
        run_of_none (outcome?_eq_none_iff.mpr (hresult.symm.trans hgoes))
      rw [hrun, hrun']
      refine ih halike (isFinished_of_step hgoes) ?_ ?_ ?_ (by rw [hinput, hmore])
      · rw [houtput]
        exact hroom
      · rw [step_failure?, hnone]
      · rw [step_failure?, hreason]
    · -- the line ends both runs
      rcases ht : t.step with ⟨result, t'⟩
      rw [hs, ht] at hresult halike
      obtain rfl : .ok (some ending) = result := hresult
      rw [run_of_ended hs, run_of_ended ht]
      exact .inl ⟨hstopped _ (by rw [hs]; rfl), rfl, halike.reader.note _, halike.symbols⟩

end Session

namespace Input

/-- **The bytes up to the last line feed**, none if there is none. -/
def finishedPart (bytes : List UInt8) : List UInt8 :=
  bytes.rdropWhile (· != lineFeed)

/-- The finished part leaves no line unfinished. -/
theorem complete_finishedPart (bytes : List UInt8) : Complete (finishedPart bytes) := by
  rw [Complete]
  by_cases h : finishedPart bytes = []
  · exact .inl h
  · refine .inr ?_
    have hlast : (bytes.rdropWhile (· != lineFeed)).getLast h = lineFeed := by
      simpa using List.rdropWhile_last_not (· != lineFeed) bytes h
    rw [List.getLast?_eq_some_getLast h]
    exact congrArg some hlast

/-- **An input that fails delivers the lines of its finished part.** -/
theorem lines_of_failure (bytes : List UInt8) (reason : String) :
    lines ⟨bytes, some reason⟩ = lines ⟨finishedPart bytes, none⟩ := by
  have hrest : lineFeed ∉ bytes.rtakeWhile (· != lineFeed) := fun hmem => by
    simpa using List.mem_rtakeWhile_imp hmem
  have hnone : lines ⟨bytes.rtakeWhile (· != lineFeed), some reason⟩ = [] := by
    rw [lines_of_lineFeed_notMem hrest, if_neg (by simp)]
  calc lines ⟨bytes, some reason⟩
      = lines ⟨finishedPart bytes ++ bytes.rtakeWhile (· != lineFeed), some reason⟩ := by
        rw [finishedPart, List.rdropWhile_append_rtakeWhile]
    _ = lines ⟨finishedPart bytes, none⟩ := by
        rw [lines_append (complete_finishedPart bytes), hnone, List.append_nil]

end Input

namespace Session

/-- **A failure loses only the unfinished line.** Over an input that fails, a session does what it
does over the bytes up to the last line feed, as long as these do not run out. Where they do, it
breaks down with the failure, and there is no farewell. Up to there the two have remarked the same,
so that nothing behind the last line feed is ever read as a line or cut into tokens. -/
theorem run_of_failure (bytes : List UInt8) (reason prompt : String) (symbols : SymbolTable) :
    let finished := (fresh prompt ⟨Input.finishedPart bytes, none⟩ symbols).run
    let whole := (fresh prompt ⟨bytes, some reason⟩ symbols).run
    (Stopped finished.1 ∨ finished.1 = .ok .endOfInput) ∧
      (Stopped finished.1 → whole.1 = finished.1 ∧ whole.2.symbols = finished.2.symbols ∧
        whole.2.reader.output = finished.2.reader.output ∧
        whole.2.reader.journal = finished.2.reader.journal) ∧
      (finished.1 = .ok .endOfInput → whole.1 = .error (.stream reason) ∧
        whole.2.symbols = finished.2.symbols ∧
        finished.2.reader.output.written =
          whole.2.reader.output.written ++ "\nBye\n".toUTF8 ∧
        finished.2.reader.journal =
          .sessionEnded .endOfInput :: .inputExhausted :: whole.2.reader.journal) := by
  intro finished whole
  have halike : (fresh prompt ⟨Input.finishedPart bytes, none⟩ symbols).Alike
      (fresh prompt ⟨bytes, some reason⟩ symbols) :=
    ⟨⟨rfl, rfl, rfl, rfl, (Input.lines_of_failure bytes reason).symm⟩, rfl⟩
  rcases halike.run_cases rfl rfl rfl rfl with
    ⟨hstopped, hresult, halike'⟩ | ⟨hend, hfailed, hsymbols, houtput, hjournal⟩
  · refine ⟨.inl hstopped, fun _ => ⟨hresult, halike'.symbols.symm, halike'.reader.output.symm,
      halike'.reader.journal.symm⟩, fun hend => ?_⟩
    rcases hstopped with hexit | ⟨text, column, hinvalid⟩
    · cases hexit.symm.trans hend
    · cases hinvalid.symm.trans hend
  · refine ⟨.inr hend, ?_, fun _ => ⟨hfailed, hsymbols, congrArg Output.written houtput, hjournal⟩⟩
    rintro (hexit | ⟨text, column, hinvalid⟩)
    · cases hend.symm.trans hexit
    · cases hend.symm.trans hinvalid

end Session

end StackCalculator
