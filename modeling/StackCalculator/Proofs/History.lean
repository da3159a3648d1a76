import StackCalculator.Proofs.Items

/-!
# The history of a session

The symbol table of a session is exactly the history of its accesses. A line accesses what the items
of the tokens taken by it access, and its target in the end if it has a value. This holds after any
number of lines, whatever became of them, and in the middle of a line after any number of tokens.

A line that is cut short comes to no harm: the token that cuts it short is refused before it does
anything, so that the table stays as the tokens before it left it.

## Main definitions

* `Session.Reaches`: the states that the evaluation of a line passes through
* `Session.lineAccesses`: the accesses of a line
* `Session.after`, `Session.history`: a session after some lines, and the accesses of all of them
* `Session.MidLine`: what holds in the middle of a line

## Main results

* `Session.lineValue_symbols`: a line accesses what its items access, and its target
* `Session.Reaches.eq_of_stopped`: the token that cuts a line short accesses nothing
* `Session.symbols_after`: the symbol table is the one that the history leads to
* `Session.symbols_records_history`: it has the names accessed, with the values written last
-/

namespace StackCalculator

namespace Session

open Evaluation

/-! ## The middle of a line -/

/-- **The states that the evaluation of a line passes through**, with the tokens taken on the
way. -/
inductive Reaches : Evaluation → TokenReader → List Token → Evaluation → TokenReader → Prop
  | refl (e : Evaluation) (r : TokenReader) : Reaches e r [] e r
  | step {e e₁ e' : Evaluation} {r r' : TokenReader} {remark? : Option Remark} {ts : List Token}
      (hfeed : e.feed r.take.1 r.take.2.line.column = .next e₁ remark?)
      (hrest : Reaches e₁ (r.take.2.noteAny remark?) ts e' r') : Reaches e r (r.take.1 :: ts) e' r'

variable {e e' : Evaluation} {r r' : TokenReader} {ts : List Token}

/-- The tokens taken on the way are accepted. -/
theorem Reaches.advance? (h : Reaches e r ts e' r') : e.advance? ts = some e' := by
  induction h with
  | refl => rfl
  | @step e e₁ e' r r' remark? ts hfeed _ ih =>
    rw [advance?_cons, accept?_of_feed hfeed]
    exact ih

/-- The evaluation goes on from each state that it passes through. -/
theorem Reaches.restValue_eq (h : Reaches e r ts e' r') : restValue e r = restValue e' r' := by
  induction h with
  | refl => rfl
  | step hfeed _ ih =>
    rw [restValue]
    split
    · next heq =>
      rw [hfeed] at heq
      cases heq
      exact ih
    · next heq => rw [hfeed] at heq; cases heq
    · next heq => rw [hfeed] at heq; cases heq

/-- A token that interrupts the line leaves the symbol table as it was before it. -/
theorem restValue_of_stopped {i : Interrupt}
    (h : e.feed r.take.1 r.take.2.line.column = .stopped i) :
    restValue e r = (.error i, ⟨r.take.2, e.symbols⟩) := by
  rw [restValue]
  split
  · next heq => rw [h] at heq; cases heq
  · next heq => rw [h] at heq; cases heq
  · next heq =>
    rw [h] at heq
    cases heq
    rfl

/-- **A line that is cut short passes through the state in which it is.** -/
theorem exists_reaches_of_error {i : Interrupt} (h : (restValue e r).1 = .error i) :
    ∃ ts e' r', Reaches e r ts e' r' ∧ e'.feed r'.take.1 r'.take.2.line.column = .stopped i := by
  fun_induction restValue e r with
  | case1 e r r₁ e₁ remark? hfeed ih =>
    obtain ⟨ts, e', r', hreaches, hstopped⟩ := ih h
    exact ⟨_, e', r', .step hfeed hreaches, hstopped⟩
  | case2 => cases h
  | case3 e r r₁ j hfeed =>
    cases h
    exact ⟨[], e, r, .refl e r, hfeed⟩

/-- The tokens taken on the way come off the pending ones. -/
theorem Reaches.pending_eq (h : Reaches e r ts e' r') (hr : r.line.phase.isFinished = false) :
    r'.line.phase.isFinished = false ∧
      ∃ taken, r.line.pending = taken ++ r'.line.pending ∧ taken.map Prod.fst = ts := by
  induction h with
  | refl => exact ⟨hr, [], rfl, rfl⟩
  | @step e e₁ e' r r' remark? ts hfeed _ ih =>
    have hup : r.line.upcoming ≠ .endOfLine := ne_endOfLine_of_next hfeed
    have hopen := TokenReader.not_isFinished_noteAny_take hup remark?
    obtain ⟨hr', taken, hpending, htaken⟩ := ih hopen
    rw [TokenReader.noteAny_line] at hpending
    refine ⟨hr', (r.take.1, r.take.2.line.column) :: taken, ?_, ?_⟩
    · rw [TokenReader.pending_take hr, hpending, List.cons_append]
    · rw [List.map_cons, htaken]

/-- The tokens taken by the evaluation of a line begin with those taken on the way. -/
theorem Reaches.isPrefix_consumed (h : Reaches e r ts e' r')
    (hr : r.line.phase.isFinished = false) :
    ts <+: r.line.consumed (restValue e r).2.reader.line := by
  obtain ⟨hr', taken, hpending, htaken⟩ := h.pending_eq hr
  obtain ⟨accepted, e'', t, column, behind, hsettles, rfl, -⟩ := restValue_settles e' r' hr'
  rw [hsettles.line_eq, List.append_cons, ← List.append_assoc] at hpending
  rw [h.restValue_eq, LineCursor.consumed_of_pending_eq hpending, List.map_append, htaken]
  exact List.prefix_append _ _

/-- A line that is cut short has taken the token that cuts it short, and no more. -/
theorem Reaches.consumed_of_stopped {i : Interrupt} (h : Reaches e r ts e' r')
    (hr : r.line.phase.isFinished = false)
    (hstopped : e'.feed r'.take.1 r'.take.2.line.column = .stopped i) :
    r.line.consumed (restValue e r).2.reader.line = ts ++ [r'.take.1] := by
  obtain ⟨hr', taken, hpending, htaken⟩ := h.pending_eq hr
  rw [TokenReader.pending_take hr', List.append_cons] at hpending
  rw [h.restValue_eq, restValue_of_stopped hstopped]
  rw [LineCursor.consumed_of_pending_eq hpending, List.map_append, htaken]
  rfl

/-! ## One line -/

/-- **The accesses of a line**: those of the items of all tokens taken by it, and its target if it
has a value. -/
def lineAccesses (s : Session) : List Access :=
  match s.reader.ready with
  | (.ok (), r) =>
    let past := (items (r.line.consumed s.lineValue.2.reader.line)).reverse
    match s.lineValue.1 with
    | .ok x => accesses past ++ [.write (latestTarget past) x]
    | .error _ => accesses past
  | (.error _, _) => []

/-- The access of a line that has come to its end with a value. -/
def storing (target : String) : Except Interrupt Float → List Access
  | .ok x => [.write target x]
  | .error _ => []

/-- What settles a line stores its value, if it has one. -/
theorem replay_storing_of_verdict? {t : Token} {column : Nat} {value : Except Interrupt Float}
    {symbols : SymbolTable} (h : (e.feed t column).verdict? e.symbols = some (value, symbols)) :
    symbols = e.symbols.replay (storing e.target value) := by
  match value with
  | .ok x =>
    obtain ⟨remark, hdone⟩ := Progress.exists_done_of_verdict? h
    obtain rfl := eq_endOfLine_of_done hdone
    exact (feed_endOfLine_eq_done_iff.mp ⟨remark, hdone⟩).2.2
  | .error i => exact (Progress.eq_stopped_of_verdict? h).2.symm

/-- **A line accesses what its accepted tokens access, and its target.** -/
theorem lineAccesses_of_settles {s : Session} (hready : s.reader.ready = (.ok (), r))
    {accepted behind : List (Token × Nat)} {t : Token} {column : Nat}
    (hsettles : Settles (start s.symbols) r.line.pending accepted e t column behind)
    (hpending : s.lineValue.2.reader.line.pending = behind)
    (hverdict : (e.feed t column).verdict? e.symbols =
      some (s.lineValue.1, s.lineValue.2.symbols)) :
    s.lineAccesses =
      accesses (items (accepted.map Prod.fst)).reverse ++ storing e.target s.lineValue.1 := by
  have hline := hsettles.line_eq
  rw [List.append_cons, ← hpending] at hline
  have hconsumed : r.line.consumed s.lineValue.2.reader.line = accepted.map Prod.fst ++ [t] := by
    rw [LineCursor.consumed_of_pending_eq hline, List.map_append]
    rfl
  have haccesses := (after_start s.symbols).accesses_concat rfl hsettles.advance_eq t
  rw [access?_of_refused hsettles.accept_eq, Option.toList_none, List.append_nil, List.append_nil,
    List.append_nil] at haccesses
  simp only [lineAccesses, hready, hconsumed]
  cases hvalue : s.lineValue.1 with
  | ok x =>
    obtain ⟨remark, hdone⟩ := Progress.exists_done_of_verdict? (hvalue ▸ hverdict)
    have hafter := (after_start s.symbols).advance rfl hsettles.advance_eq
    rw [List.append_nil] at hafter
    obtain rfl := eq_endOfLine_of_done hdone
    dsimp only
    rw [items_concat_endOfLine, ← hafter.target_eq]
    rfl
  | error i =>
    dsimp only
    rw [haccesses, storing, List.append_nil]

/-- **A line changes the table by its accesses alone.** -/
theorem lineValue_symbols (s : Session) :
    s.lineValue.2.symbols = s.symbols.replay s.lineAccesses := by
  rcases hready : s.reader.ready with ⟨i | u, r⟩
  · simp [lineAccesses, lineValue, hready]
  · obtain ⟨accepted, e, t, column, behind, hsettles, hpending, hverdict⟩ :=
      lineValue_settles hready
    have hafter := (after_start s.symbols).advance rfl hsettles.advance_eq
    rw [List.append_nil] at hafter
    rw [lineAccesses_of_settles hready hsettles hpending hverdict, SymbolTable.replay_append,
      ← hafter.symbols_eq]
    exact replay_storing_of_verdict? hverdict

@[simp]
theorem write_symbols (text : String) (s : Session) : (s.write text).2.symbols = s.symbols := rfl

theorem answerFailure_symbols (d : Diagnostic) (s : Session) :
    (s.answerFailure d).2.symbols = s.symbols := by
  simp only [answerFailure]
  split
  · next hw => exact (congrArg (·.2.symbols) hw).symm
  · next hw => exact (congrArg (·.2.symbols) hw).symm

/-- The answer to a line changes no name. -/
theorem step_symbols (s : Session) : s.step.2.symbols = s.lineValue.2.symbols := by
  simp only [step]
  split
  · next h => simp [h]
  · next h => simp [h, answerFailure_symbols]
  · next h => simp [h]
  · next h => simp [h]

/-! ## Many lines -/

/-- **A session after some steps**, also if it should have ended before. -/
def after (s : Session) : Nat → Session
  | 0 => s
  | n + 1 => (s.after n).step.2

theorem after_step (s : Session) (n : Nat) : s.after (n + 1) = s.step.2.after n := by
  induction n with
  | zero => rfl
  | succ n ih => rw [after, ih, after]

/-- **The accesses of a session in some steps.** -/
def history (s : Session) : Nat → List Access
  | 0 => []
  | n + 1 => s.history n ++ (s.after n).lineAccesses

/-- **The symbol table is the one that the history leads to.** -/
theorem symbols_after (s : Session) (n : Nat) :
    (s.after n).symbols = s.symbols.replay (s.history n) := by
  induction n with
  | zero => rfl
  | succ n ih => rw [after, history, step_symbols, lineValue_symbols, ih, SymbolTable.replay_append]

/-- From the beginning, the symbol table records the history. -/
theorem records_after (prompt : String) (input : Input) (output : Output) (n : Nat) :
    ((new prompt input output).after n).symbols.Records ((new prompt input output).history n) := by
  rw [symbols_after]
  exact SymbolTable.records_replay _

theorem history_isPrefix (s : Session) (n m : Nat) : s.history n <+: s.history (n + m) := by
  induction m with
  | zero => exact List.prefix_rfl
  | succ m ih => exact ih.trans (List.prefix_append _ _)

/-- **What holds in the middle of a line** of a session `s` with the history `h`, when the tokens
`ts` have led to the evaluation `e`, and `r` is about to give the next one. -/
structure MidLine (s : Session) (h : List Access) (ts : List Token) (e : Evaluation)
    (r : TokenReader) : Prop where
  /-- The accesses made so far are some of those of the line. -/
  isPrefix : accesses (items ts).reverse <+: s.lineAccesses
  /-- The symbol table records the history and the accesses made so far. -/
  records : e.symbols.Records (h ++ accesses (items ts).reverse)
  /-- An operand that is a name is read. It has the value written last, or zero. -/
  read : ∀ name column e' remark?, e.assigning = false →
    e.feed (.identifier name) column = .next e' remark? →
      accesses (items (ts ++ [.identifier name])).reverse =
        accesses (items ts).reverse ++ [.read name] ∧
      e'.stack = (lastWritten? (h ++ accesses (items ts).reverse) name).getD 0 :: e.stack
  /-- The number of the text behind `=` is written under the name read last. -/
  written : ∀ t column e' remark?, e.assigning = true → e.feed t column = .next e' remark? →
    ∃ x, t.numeral? = some x ∧ accesses (items (ts ++ [t])).reverse =
      accesses (items ts).reverse ++ [.write (latestName (items ts).reverse) x]
  /-- A token that cuts the line short accesses and changes nothing. -/
  refused : ∀ i, e.feed r.take.1 r.take.2.line.column = .stopped i →
    s.lineValue.1 = .error i ∧ s.lineAccesses = accesses (items ts).reverse ∧
      s.step.2.symbols = e.symbols
  /-- No name is removed. -/
  kept : (∀ name ∈ s.symbols, name ∈ e.symbols) ∧ ∀ name ∈ e.symbols, name ∈ s.step.2.symbols

section MidLine

variable {s : Session} {h : List Access}

theorem Reaches.after {symbols : SymbolTable} (hreaches : Reaches (start symbols) r ts e r') :
    After symbols (items ts).reverse e := by
  simpa using (after_start symbols).advance rfl hreaches.advance?

/-- The next token adds its access to those made so far. -/
theorem Reaches.accesses_concat {symbols : SymbolTable}
    (hreaches : Reaches (start symbols) r ts e r') (t : Token) :
    accesses (items (ts ++ [t])).reverse =
      accesses (items ts).reverse ++ (e.access? t).toList := by
  simpa using (after_start symbols).accesses_concat rfl hreaches.advance? t

/-- The accesses of a line begin with those made so far. -/
theorem Reaches.isPrefix_lineAccesses (hready : s.reader.ready = (.ok (), r))
    (hreaches : Reaches (start s.symbols) r ts e r') :
    accesses (items ts).reverse <+: s.lineAccesses := by
  obtain ⟨more, hmore⟩ := hreaches.isPrefix_consumed (TokenReader.not_isFinished_of_ready hready)
  rw [← lineValue_of_ready hready] at hmore
  have hitems := accesses_items_isPrefix ts more []
  rw [hmore, List.append_nil, List.append_nil] at hitems
  simp only [lineAccesses, hready]
  split
  · exact hitems.trans (List.prefix_append _ _)
  · exact hitems

/-- **The token that cuts a line short accesses and changes nothing.** -/
theorem Reaches.eq_of_stopped (hready : s.reader.ready = (.ok (), r))
    (hreaches : Reaches (start s.symbols) r ts e r') {i : Interrupt}
    (hstopped : e.feed r'.take.1 r'.take.2.line.column = .stopped i) :
    s.lineValue.1 = .error i ∧ s.lineAccesses = accesses (items ts).reverse ∧
      s.step.2.symbols = e.symbols := by
  have hvalue := lineValue_of_ready hready
  have hrest := hreaches.restValue_eq.trans (restValue_of_stopped hstopped)
  have herror : s.lineValue.1 = .error i := by rw [hvalue, hrest]
  have hconsumed :=
    hreaches.consumed_of_stopped (TokenReader.not_isFinished_of_ready hready) hstopped
  rw [← hvalue] at hconsumed
  refine ⟨herror, ?_, ?_⟩
  · simp only [lineAccesses, hready, hconsumed, herror]
    rw [hreaches.accesses_concat, access?_of_refused (accept?_of_stopped hstopped)]
    exact List.append_nil _
  · rw [step_symbols, hvalue, hrest]

/-- The middle of a line, on top of a symbol table that records the history. -/
theorem Reaches.midLine (hsymbols : s.symbols = SymbolTable.replay ∅ h)
    (hready : s.reader.ready = (.ok (), r)) (hreaches : Reaches (start s.symbols) r ts e r') :
    MidLine s h ts e r' := by
  have hafter := hreaches.after
  have hextends := hreaches.isPrefix_lineAccesses hready
  have hrecords : e.symbols.Records (h ++ accesses (items ts).reverse) := by
    rw [hafter.symbols_eq, hsymbols, ← SymbolTable.replay_append]
    exact SymbolTable.records_replay _
  refine ⟨hextends, hrecords, ?_, ?_, fun i hstopped => hreaches.eq_of_stopped hready hstopped,
    ?_, ?_⟩
  · intro name column e' remark? ha hfeed
    have haccepts := accepts_of_accept? (accept?_of_feed hfeed)
    rw [hreaches.accesses_concat, haccepts.access?_identifier ha, ← hrecords.value_eq name]
    refine ⟨rfl, ?_⟩
    cases haccepts with
    | target ha' => rw [ha] at ha'; cases ha'
    | identifier => rfl
  · intro t column e' remark? ha hfeed
    obtain ⟨x, hx, haccess⟩ := (accepts_of_accept? (accept?_of_feed hfeed)).access?_literal ha
    refine ⟨x, hx, ?_⟩
    rw [hreaches.accesses_concat, haccess, hafter.lastName_eq]
    rfl
  · intro name hname
    rw [hafter.symbols_eq]
    exact SymbolTable.mem_replay_iff.mpr (.inr hname)
  · intro name hname
    obtain ⟨more, hmore⟩ := hextends
    rw [step_symbols, lineValue_symbols, ← hmore, SymbolTable.replay_append, ← hafter.symbols_eq]
    exact SymbolTable.mem_replay_iff.mpr (.inr hname)

end MidLine

/-- **The symbol table is exactly the history of reads and writes**, after any number of lines and
in the middle of a line. No name is ever removed, and a line that is cut short ends in one of the
states that it passes through. -/
theorem symbols_records_history (prompt : String) (input : Input) (output : Output) (n : Nat) :
    let s := (new prompt input output).after n
    let h := (new prompt input output).history n
    s.symbols.Records h ∧
      (∀ r, s.reader.ready = (.ok (), r) →
        (∀ ts e r', Reaches (start s.symbols) r ts e r' → MidLine s h ts e r') ∧
        ∀ i, s.lineValue.1 = .error i → ∃ ts e r', Reaches (start s.symbols) r ts e r' ∧
          e.feed r'.take.1 r'.take.2.line.column = .stopped i) ∧
      ∀ m, ∀ name ∈ s.symbols, name ∈ ((new prompt input output).after (n + m)).symbols := by
  intro s h
  refine ⟨records_after prompt input output n, fun r hready => ⟨?_, ?_⟩, ?_⟩
  · exact fun ts e r' hreaches => hreaches.midLine (symbols_after _ n) hready
  · intro i hi
    rw [lineValue_of_ready hready] at hi
    exact exists_reaches_of_error hi
  · intro m name hname
    obtain ⟨more, hmore⟩ := history_isPrefix (new prompt input output) n m
    have hlater := records_after prompt input output (n + m)
    rw [← hmore] at hlater
    exact (records_after prompt input output n).mem_of_append hlater hname

end Session

end StackCalculator
