import StackCalculator.Proofs.Delivery
import StackCalculator.Proofs.Events

/-!
# Line terminators

A line is written out with a line feed behind it, or a carriage return and a line feed; the last one
may do without either, unless it is empty. However some lines are written out, an input delivers
these lines and no others. What a session does is up to the lines that it gets, so that the
terminators leave no trace in it: not in its steps, not in their results, and not in what they
write.

A line that holds no character is a line all the same, since its terminator is a byte to be read.
Behind the last terminator there is nothing to be read, and so no empty line either.

## Main definitions

* `Input.WritesOut lines bytes`: bytes that write out some lines, with terminators of any kind
* `Session.Lasts`: a session goes on for some steps
* `Session.GoesThrough`: a session reads some lines, one with each step

## Main results

* `Input.lines_of_writesOut`: an input delivers the lines that are written out
* `Session.goesThrough`: a session goes through the lines of its input
* `Session.terminators_invisible`: a session depends on the lines and not on their terminators
-/

namespace StackCalculator

namespace Input

/-! ## Lines that are written out -/

/-- **A line that can be written out**, with any terminator behind it: it holds no line feed, and no
carriage return at its end. -/
structure IsLine (line : List UInt8) : Prop where
  lineFeed_notMem : lineFeed ∉ line
  getLast?_ne : line.getLast? ≠ some 13

/-- **Bytes that write out some lines**, each with a terminator of its own. -/
inductive WritesOut : List (List UInt8) → List UInt8 → Prop
  | nil : WritesOut [] []
  /-- A line feed ends the line. -/
  | byLineFeed {line : List UInt8} {lines : List (List UInt8)} {bytes : List UInt8}
      (h : WritesOut lines bytes) : WritesOut (line :: lines) (line ++ lineFeed :: bytes)
  /-- A carriage return and a line feed end the line. -/
  | byReturn {line : List UInt8} {lines : List (List UInt8)} {bytes : List UInt8}
      (h : WritesOut lines bytes) : WritesOut (line :: lines) (line ++ 13 :: lineFeed :: bytes)
  /-- Nothing ends the last line. -/
  | unfinished {line : List UInt8} (h : line ≠ []) : WritesOut [line] line

theorem dropReturn_of_ne {line : List UInt8} (h : line.getLast? ≠ some 13) :
    dropReturn line = line :=
  if_neg h

theorem dropReturn_concat (line : List UInt8) : dropReturn (line ++ [13]) = line := by
  rw [dropReturn, if_pos List.getLast?_concat, List.dropLast_concat]

/-- **An input delivers the lines that are written out**, whatever their terminators. -/
theorem lines_of_writesOut {lines : List (List UInt8)} {bytes : List UInt8}
    (h : WritesOut lines bytes) (hlines : ∀ line ∈ lines, IsLine line) :
    Input.lines ⟨bytes, none⟩ = lines.map Utf8.decode := by
  induction h with
  | nil => exact lines_nil none
  | @byLineFeed line lines bytes h ih =>
    obtain ⟨hline, hmore⟩ := List.forall_mem_cons.mp hlines
    rw [lines_of_line (fetch_append_lineFeed hline.lineFeed_notMem bytes none), ih hmore,
      dropReturn_of_ne hline.getLast?_ne, List.map_cons]
  | @byReturn line lines bytes h ih =>
    obtain ⟨hline, hmore⟩ := List.forall_mem_cons.mp hlines
    have hreturn : lineFeed ∉ line ++ [13] := by
      rw [List.mem_append, not_or]
      exact ⟨hline.lineFeed_notMem, by decide⟩
    rw [List.append_cons line 13, lines_of_line (fetch_append_lineFeed hreturn bytes none),
      ih hmore, dropReturn_concat, List.map_cons]
  | @unfinished line h =>
    have hline := (List.forall_mem_singleton.mp hlines).lineFeed_notMem
    rw [lines_of_lineFeed_notMem hline, if_pos ⟨rfl, h⟩]
    rfl

end Input

/-! ## The lines that are read -/

/-- The line that is read, if one is. -/
def Event.line? : Event → Option (List Char)
  | read (.line text) => some text
  | _ => none

/-- A read takes its line off those that are still to come. -/
theorem Input.lines_fetch (i : Input) :
    (Event.read i.fetch.1).line?.toList ++ i.fetch.2.lines = i.lines := by
  rcases i.fetch_cases with ⟨text, bytes, hf⟩ | ⟨hb, -, hf⟩ | ⟨reason, -, hf⟩
  · rw [lines_of_line hf, hf]
    rfl
  · rw [hf]
    rfl
  · have hnone : i.lines = [] := by rw [lines, hf]
    rw [hnone, hf]
    exact lines_nil _

/-- **The lines read and the lines still to come** are the lines of the input. -/
theorem Leads.lines_eq {σ σ' : Streams} {events : List Event} (h : Leads σ events σ') :
    events.filterMap Event.line? ++ σ'.input.lines = σ.input.lines := by
  induction h with
  | nil => rfl
  | concat _ hdoes ih =>
    rw [← ih, List.filterMap_append, List.append_assoc]
    refine congrArg (_ ++ ·) ?_
    cases hdoes with
    | read => exact Input.lines_fetch _
    | prompted | returned | wrote | dropped => rfl

namespace Session

variable {s : Session}

/-- The lines read in some steps, and those still to come, are the lines of the input. -/
theorem linesRead_append (s : Session) (n : Nat) :
    (s.trace n).filterMap Event.line? ++ (s.after n).reader.input.lines = s.reader.input.lines :=
  (leads_trace s n).lines_eq

/-- **The session goes on** for some steps. -/
def Lasts (s : Session) (n : Nat) : Prop :=
  ∀ m < n, (s.after m).step.1 = .ok none

theorem Lasts.of_succ {n : Nat} (h : s.Lasts (n + 1)) : s.Lasts n ∧ (s.after n).step.1 = .ok none :=
  ⟨fun m hm => h m (Nat.lt_succ_of_lt hm), h n (Nat.lt_succ_self n)⟩

/-- As long as the session goes on, it needs a line. -/
theorem Lasts.isFinished {n : Nat} (h : s.Lasts n)
    (hneeds : s.reader.line.phase.isFinished = true) :
    (s.after n).reader.line.phase.isFinished = true := by
  cases n with
  | zero => exact hneeds
  | succ n => exact isFinished_of_step h.of_succ.2

/-- A step after which the session goes on takes one line of the input. -/
theorem exists_line_of_step (hneeds : s.reader.line.phase.isFinished = true)
    (h : s.step.1 = .ok none) :
    ∃ line, s.reader.input.lines = line :: s.step.2.reader.input.lines := by
  have hready := ready_of_step h
  rw [step_reader_input, lineValue_reader_input hready]
  rw [TokenReader.ready, if_pos hneeds, TokenReader.fetch] at hready ⊢
  have hinput := TokenReader.write_input s.reader.prompt s.reader
  rcases hw : s.reader.write s.reader.prompt with ⟨err | u, r⟩ <;> rw [hw] at hready hinput
  · cases hready
  · dsimp only at hready hinput ⊢
    rw [← hinput]
    rw [TokenReader.receive] at hready ⊢
    rcases r.input.fetch_cases with ⟨text, bytes, hf⟩ | ⟨-, -, hf⟩ | ⟨reason, -, hf⟩ <;>
      rw [hf] at hready ⊢
    · exact ⟨text, Input.lines_of_line hf⟩
    · cases hready
    · cases hready

/-- **As long as the session goes on, each step takes one line.** -/
theorem Lasts.lines_eq_drop {n : Nat} (h : s.Lasts n)
    (hneeds : s.reader.line.phase.isFinished = true) : n ≤ s.reader.input.lines.length ∧
      (s.after n).reader.input.lines = s.reader.input.lines.drop n := by
  induction n with
  | zero => exact ⟨Nat.zero_le _, rfl⟩
  | succ n ih =>
    obtain ⟨hbefore, hstep⟩ := h.of_succ
    obtain ⟨-, hdrop⟩ := ih hbefore
    obtain ⟨line, hline⟩ := exists_line_of_step (hbefore.isFinished hneeds) hstep
    rw [hdrop] at hline
    refine ⟨?_, ?_⟩
    · have hlt : ¬ s.reader.input.lines.length ≤ n := fun hle => by
        rw [List.drop_eq_nil_of_le hle] at hline
        cases hline
      omega
    · rw [after, ← List.tail_drop, hline, List.tail_cons]

/-- **A session goes through some lines**, one after the other and each once. -/
structure GoesThrough (s : Session) (lines : List (List Char)) : Prop where
  /-- The lines read in any number of steps are the first of the lines. -/
  reads : ∀ n, (s.trace n).filterMap Event.line? <+: lines
  /-- As long as the session goes on, each step has read one line. -/
  each : ∀ n, s.Lasts n → n ≤ lines.length ∧ (s.trace n).filterMap Event.line? = lines.take n
  /-- A line without a character is read as a line, and fails at its first column. -/
  empty : ∀ n, s.Lasts n → lines[n]? = some [] →
    (s.after n).lineValue.1 = .error (.failed ⟨.malformedExpression, 1⟩) ∧ s.Lasts (n + 1)
  /-- Behind the last line there is no other. -/
  ends : s.Lasts lines.length → (s.after lines.length).step.1 = .ok (some .endOfInput)

/-- A line without a character has no value. -/
theorem restValue_holding_nil (symbols : SymbolTable) :
    (restValue (Evaluation.start symbols) (TokenReader.holding [])).1 =
      .error (.failed ⟨.malformedExpression, 1⟩) := by
  rw [restValue_of_stopped (i := .failed ⟨.malformedExpression, 1⟩) rfl]

/-- An output without a limit stays without one. -/
theorem room?_after (hroom : s.reader.output.room? = none) (n : Nat) :
    (s.after n).reader.output.room? = none := by
  induction n with
  | zero => exact hroom
  | succ n ih =>
    rw [after, (step_of_unlimited ih).2.1]
    exact ih

/-- **A session goes through the lines of its input**, if nothing keeps it from reading and
writing. -/
theorem goesThrough (hneeds : s.reader.line.phase.isFinished = true)
    (hroom : s.reader.output.room? = none) (hnone : s.reader.input.failure? = none) :
    s.GoesThrough s.reader.input.lines where
  reads n := ⟨_, s.linesRead_append n⟩
  each n hlasts := by
    obtain ⟨hle, hdrop⟩ := hlasts.lines_eq_drop hneeds
    have hread := s.linesRead_append n
    rw [hdrop] at hread
    exact ⟨hle, List.append_cancel_right (hread.trans (List.take_append_drop n _).symm)⟩
  empty n hlasts hempty := by
    obtain ⟨-, hdrop⟩ := hlasts.lines_eq_drop hneeds
    obtain ⟨hlt, hget⟩ := List.getElem?_eq_some_iff.mp hempty
    have hlines : (s.after n).reader.input.lines = [] :: s.reader.input.lines.drop (n + 1) := by
      rw [hdrop, ← List.getElem_cons_drop hlt, hget]
    obtain ⟨input, hfetch, -⟩ := Input.fetch_of_lines_eq_cons hlines
    obtain ⟨hvalue, -⟩ := lineValue_of_line (hlasts.isFinished hneeds) (room?_after hroom n) hfetch
    have hfailed := hvalue.trans (restValue_holding_nil _)
    refine ⟨hfailed, fun m hm => ?_⟩
    rcases Nat.lt_succ_iff_lt_or_eq.mp hm with hlt | rfl
    · exact hlasts m hlt
    · rw [(step_of_unlimited (room?_after hroom m)).1, hfailed]
      rfl
  ends hlasts := by
    obtain ⟨-, hdrop⟩ := hlasts.lines_eq_drop hneeds
    rw [List.drop_length] at hdrop
    rcases Input.fetch_of_lines_eq_nil hdrop with ⟨-, hfetch⟩ | ⟨reason, hreason, -⟩
    · rw [step_of_exhausted (hlasts.isFinished hneeds) (room?_after hroom _) hfetch]
    · rw [failure?_after, hnone] at hreason
      cases hreason

/-- **A session depends on the lines and not on their terminators.** Over inputs that write out the
same lines, sessions take the same number of steps, and each of them has the same result, writes the
same and leaves the same values. Those lines are the ones that are read, the empty ones among
them. -/
theorem terminators_invisible {lines : List (List UInt8)}
    (hlines : ∀ line ∈ lines, Input.IsLine line) {bytes bytes' : List UInt8}
    (h : Input.WritesOut lines bytes) (h' : Input.WritesOut lines bytes') (prompt : String)
    (output : Output) (symbols : SymbolTable) :
    let s : Session := { new prompt ⟨bytes, none⟩ output with symbols }
    let t : Session := { new prompt ⟨bytes', none⟩ output with symbols }
    (∀ n, (s.after n).step.1 = (t.after n).step.1 ∧ (s.after n).Alike (t.after n)) ∧
      (s.run.1 = t.run.1 ∧ s.run.2.Alike t.run.2 ∧ s.steps = t.steps) ∧
      (output.room? = none → s.GoesThrough (lines.map Utf8.decode)) := by
  intro s t
  have hs : s.reader.input.lines = lines.map Utf8.decode := Input.lines_of_writesOut h hlines
  have ht : t.reader.input.lines = lines.map Utf8.decode := Input.lines_of_writesOut h' hlines
  have halike : s.Alike t := ⟨⟨rfl, rfl, rfl, rfl, hs.trans ht.symm⟩, rfl⟩
  refine ⟨halike.after rfl, halike.run rfl, fun hroom => ?_⟩
  rw [← hs]
  exact goesThrough rfl hroom rfl

/-- The lines `1`, an empty one and `exit`, written out in two ways, are the same session. -/
theorem terminators_invisible_threeLines :
    let lines : List (List UInt8) := [[49], [], [101, 120, 105, 116]]
    let bytes : List UInt8 := [49, 13, 10, 10, 101, 120, 105, 116]
    let bytes' : List UInt8 := [49, 10, 13, 10, 101, 120, 105, 116, 13, 10]
    let s := new ">> " ⟨bytes, none⟩ (Output.empty none)
    let t := new ">> " ⟨bytes', none⟩ (Output.empty none)
    (∀ line ∈ lines, Input.IsLine line) ∧
      Input.WritesOut lines bytes ∧ Input.WritesOut lines bytes' ∧
      s.run.1 = .ok .exit ∧ t.run.1 = .ok .exit ∧ s.steps = t.steps := by
  intro lines bytes bytes' s t
  have hlines : ∀ line ∈ lines, Input.IsLine line := by
    intro line hline
    have hall : line = [49] ∨ line = [] ∨ line = [101, 120, 105, 116] := by
      simpa [lines] using hline
    rcases hall with rfl | rfl | rfl <;> exact ⟨by decide, by decide⟩
  have h : Input.WritesOut lines bytes :=
    .byReturn (.byLineFeed (.unfinished (by decide)))
  have h' : Input.WritesOut lines bytes' :=
    .byLineFeed (.byReturn (.byReturn .nil))
  obtain ⟨-, ⟨hrun, -, hsteps⟩, -⟩ := terminators_invisible hlines h h' ">> " (Output.empty none) ∅
  have hexit : s.run.1 = .ok .exit := by decide +kernel
  exact ⟨hlines, h, h', hexit, hrun.symm.trans hexit, hsteps⟩

end Session

end StackCalculator
