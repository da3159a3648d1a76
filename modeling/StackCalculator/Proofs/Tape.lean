import StackCalculator.Proofs.Pending

/-!
# A tape of tokens

A token reader keeps a cursor on the characters of its line and cuts the next token out of them
whenever it is asked for one. A tape of tokens cuts a line once, when it is fetched, into the list
of its tokens and their columns, and from then on only moves an index over that list. Whatever calls
are made in whatever order, the two give the same answers, show the same line and the same column,
and leave the same input and output.

The index of the tape stands on the pending tokens of the reader. A reader that can put its last
token back has the tape's index one entry behind the tokens that would then be pending, and that is
all the past either of them needs.

## Main definitions

* `ReaderCall`: the calls that a script is made of
* `TokenTape`: a list of tokens with columns, and an index
* `observations`: what a script of calls shows

## Main results

* `observations_congr`: related machines show the same
* `observations_tokenReader`: a token reader shows what the tape of tokens shows
-/

namespace StackCalculator

/-! ## Scripts of calls -/

/-- **The calls** that can be made between two tokens. -/
inductive ReaderCall where
  /-- The next token is asked for. -/
  | next
  /-- The token taken last is put back. -/
  | putBack
  /-- The rest of the line is dropped. -/
  | dropRest
deriving DecidableEq, Repr

/-- What shows after a call: the column of the last token, the line, the input and the output. -/
structure Display where
  column : Nat
  line : List Char
  input : Input
  output : Output

/-- **What a script of calls shows**: the answer to each call, if it has one, and the display after
it. -/
def observations {σ : Type} (perform : ReaderCall → σ → Option (Except Interrupt Token) × σ)
    (display : σ → Display) : List ReaderCall → σ → List (Option (Except Interrupt Token) × Display)
  | [], _ => []
  | call :: script, s =>
    let (answer, s) := perform call s
    (answer, display s) :: observations perform display script s

/-- **Related machines show the same**, if each call keeps them related and is answered alike. -/
theorem observations_congr {σ τ : Type} {rel : σ → τ → Prop}
    {perform : ReaderCall → σ → Option (Except Interrupt Token) × σ} {display : σ → Display}
    {perform' : ReaderCall → τ → Option (Except Interrupt Token) × τ} {display' : τ → Display}
    (hstep : ∀ call s t, rel s t →
      (perform call s).1 = (perform' call t).1 ∧ rel (perform call s).2 (perform' call t).2)
    (hshow : ∀ s t, rel s t → display s = display' t) (script : List ReaderCall) :
    ∀ {s t}, rel s t →
      observations perform display script s = observations perform' display' script t := by
  induction script with
  | nil => exact fun _ => rfl
  | cons call script ih =>
    intro s t h
    obtain ⟨hanswer, hnext⟩ := hstep call s t h
    simp only [observations, hanswer, hshow _ _ hnext, ih hnext]

namespace TokenReader

/-- A call to a token reader, and its answer. -/
def perform (call : ReaderCall) (r : TokenReader) : Option (Except Interrupt Token) × TokenReader :=
  match call with
  | .next => (some r.next.1, r.next.2)
  | .putBack => (none, r.putBack)
  | .dropRest => (none, r.dropRest)

/-- What a token reader shows. -/
def display (r : TokenReader) : Display :=
  ⟨r.line.column, r.line.text, r.input, r.output⟩

end TokenReader

/-! ## The tape -/

/-- **A tape of tokens**: the line at hand, the list of its tokens with their columns, and an index
into that list. -/
structure TokenTape where
  prompt : String
  input : Input
  output : Output
  line : List Char
  entries : List (Token × Nat)
  index : Nat
  /-- The column of the token that was returned last. -/
  column : Nat
  /-- A token was returned since the last time one was put back, a rest dropped or a line
  fetched. -/
  returned : Bool

namespace TokenTape

/-- A tape without a line. -/
def new (prompt : String) (input : Input) (output : Output) : TokenTape :=
  ⟨prompt, input, output, [], [], 0, 1, false⟩

/-- A line comes onto the tape, cut into tokens from its first character to its end. -/
def load (text : List Char) (t : TokenTape) : TokenTape :=
  { t with line := text, entries := lineTokens 0 text, index := 0, column := 1, returned := false }

/-- Prompting for a line and reading it. Whatever goes wrong leaves the line, its tokens and the
index as they are. -/
def fetch (t : TokenTape) : Except Interrupt Unit × TokenTape :=
  match t.output.write t.prompt with
  | (.error reason, output) => (.error (.fatal (.stream reason)), { t with output })
  | (.ok (), output) =>
    match t.input.fetch with
    | (.line text, input) => (.ok (), load text { t with input, output })
    | (.exhausted, input) => (.error (.ended .endOfInput), { t with input, output })
    | (.failed reason, input) => (.error (.fatal (.stream reason)), { t with input, output })

/-- The entry at the index is returned, and the index moves on. -/
def advance (t : TokenTape) : Token × TokenTape :=
  let (token, column) := t.entries.getD t.index (.endOfLine, t.column)
  (token, { t with index := t.index + 1, column, returned := true })

/-- **The next token**, from the next line if the list is used up: its last entry was returned, its
rest was dropped, or there was no line yet. -/
def next (t : TokenTape) : Except Interrupt Token × TokenTape :=
  if t.index < t.entries.length then (.ok t.advance.1, t.advance.2)
  else
    match t.fetch with
    | (.ok (), t) => (.ok t.advance.1, t.advance.2)
    | (.error i, t) => (.error i, t)

/-- **Moving back by one entry**, if a token was returned since the last move of another kind. -/
def putBack (t : TokenTape) : TokenTape :=
  if t.returned then { t with index := t.index - 1, returned := false } else t

/-- **Dropping the entries from the index on.** -/
def dropRest (t : TokenTape) : TokenTape :=
  { t with entries := t.entries.take t.index, returned := false }

/-- A call to a tape, and its answer. -/
def perform (call : ReaderCall) (t : TokenTape) : Option (Except Interrupt Token) × TokenTape :=
  match call with
  | .next => (some t.next.1, t.next.2)
  | .putBack => (none, t.putBack)
  | .dropRest => (none, t.dropRest)

/-- What a tape shows. -/
def display (t : TokenTape) : Display :=
  ⟨t.column, t.line, t.input, t.output⟩

/-! ## A reader and a tape that stand at the same place -/

/-- **A reader and a tape that stand at the same place.** -/
structure Follows (r : TokenReader) (t : TokenTape) : Prop where
  prompt : r.prompt = t.prompt
  input : r.input = t.input
  output : r.output = t.output
  line : r.line.text = t.line
  column : r.line.column = t.column
  /-- The index stands on the pending tokens. -/
  ahead : t.entries.drop t.index = r.line.pending
  returned : t.returned = r.line.phase.canPutBack
  /-- One entry back, it stands on those that are pending when a token is put back. -/
  behind : t.returned = true →
    0 < t.index ∧ t.entries.drop (t.index - 1) = r.line.putBack.pending

namespace Follows

variable {r : TokenReader} {t : TokenTape}

theorem display_eq (h : Follows r t) : r.display = t.display := by
  rw [TokenReader.display, TokenTape.display, h.column, h.line, h.input, h.output]

theorem index_lt_iff (h : Follows r t) :
    t.index < t.entries.length ↔ r.line.phase.isFinished = false := by
  rw [← Bool.not_eq_true, ← LineCursor.pending_eq_nil_iff, ← h.ahead, List.drop_eq_nil_iff]
  omega

/-- Taking a token and advancing the index keep together. -/
theorem advance (h : Follows r t) (hr : r.line.phase.isFinished = false) :
    r.take.1 = t.advance.1 ∧ Follows r.take.2 t.advance.2 := by
  have hpending := h.ahead.trans (TokenReader.pending_take hr)
  have hentry : t.entries.getD t.index (.endOfLine, t.column)
      = (r.take.1, r.take.2.line.column) := by
    rw [List.getD_eq_getElem?_getD, ← List.head?_drop, hpending]
    rfl
  have hnext : t.advance = (r.take.1,
      { t with index := t.index + 1, column := r.take.2.line.column, returned := true }) := by
    rw [TokenTape.advance, hentry]
  rw [hnext]
  refine ⟨rfl, h.prompt, h.input, h.output, h.line, rfl, ?_, ?_, fun _ => ⟨Nat.succ_pos _, ?_⟩⟩
  · rw [← List.tail_drop, hpending]
    rfl
  · exact (LineCursor.take_phase_canPutBack r.line).symm
  · exact h.ahead.trans (LineCursor.pending_putBack hr).symm

/-- **Fetching keeps together**: both get the same line, or fail alike and keep the one they
have. -/
theorem fetch (h : Follows r t) : r.fetch.1 = t.fetch.1 ∧ Follows r.fetch.2 t.fetch.2 := by
  obtain ⟨prompt, input, output, line, journal⟩ := r
  obtain ⟨prompt', input', output', line', entries, index, column, returned⟩ := t
  obtain ⟨hprompt, hinput, houtput, hline, hcolumn, hahead, hreturned, hbehind⟩ := h
  dsimp only at hprompt hinput houtput hline hcolumn hahead hreturned hbehind
  subst hprompt hinput houtput
  simp only [TokenReader.fetch, TokenReader.write, TokenTape.fetch]
  cases output.write prompt with
  | mk result output =>
    cases result with
    | error reason => exact ⟨rfl, rfl, rfl, rfl, hline, hcolumn, hahead, hreturned, hbehind⟩
    | ok u =>
      simp only [TokenReader.receive]
      cases input.fetch with
      | mk fetched input =>
        cases fetched with
        | line text =>
          exact ⟨rfl, rfl, rfl, rfl, rfl, rfl, rfl, rfl, fun hr => absurd hr (by simp [load])⟩
        | exhausted => exact ⟨rfl, rfl, rfl, rfl, hline, hcolumn, hahead, hreturned, hbehind⟩
        | failed reason => exact ⟨rfl, rfl, rfl, rfl, hline, hcolumn, hahead, hreturned, hbehind⟩

/-- **Asking for a token keeps together.** -/
theorem next (h : Follows r t) : r.next.1 = t.next.1 ∧ Follows r.next.2 t.next.2 := by
  rw [TokenReader.next, TokenReader.ready, TokenTape.next]
  by_cases hr : r.line.phase.isFinished = true
  · -- the line is finished, and the list is used up
    have hindex : ¬ t.index < t.entries.length := by
      rw [h.index_lt_iff, hr]
      simp
    rw [if_pos hr, if_neg hindex]
    obtain ⟨hresult, hrel⟩ := h.fetch
    cases hf : r.fetch with
    | mk result r' =>
      cases hf' : t.fetch with
      | mk result' t' =>
        rw [hf, hf'] at hresult hrel
        obtain rfl : result = result' := hresult
        cases result with
        | error i => exact ⟨rfl, hrel⟩
        | ok u =>
          have hopen : r'.line.phase.isFinished = false := by
            refine TokenReader.not_isFinished_of_ready (r := r) ?_
            rw [TokenReader.ready, if_pos hr, hf]
          obtain ⟨htoken, hrel⟩ := hrel.advance hopen
          exact ⟨congrArg Except.ok htoken, hrel⟩
  · -- the line at hand has a token left
    rw [if_neg hr, if_pos (h.index_lt_iff.mpr (eq_false_of_ne_true hr))]
    obtain ⟨htoken, hrel⟩ := h.advance (eq_false_of_ne_true hr)
    exact ⟨congrArg Except.ok htoken, hrel⟩

/-- **Putting a token back keeps together.** -/
theorem putBack (h : Follows r t) : Follows r.putBack t.putBack := by
  rw [TokenReader.putBack, TokenTape.putBack]
  cases hr : t.returned with
  | false =>
    have hphase : r.line.phase.canPutBack = false := h.returned.symm.trans hr
    have hsame : r.line.putBack = r.line := by
      rw [LineCursor.putBack, hphase]
      rfl
    rw [hsame]
    exact h
  | true =>
    have hphase : r.line.phase.canPutBack = true := h.returned.symm.trans hr
    obtain ⟨-, hback⟩ := h.behind hr
    have hline : r.line.putBack = { r.line with cursor := r.line.start, phase := .waiting } := by
      rw [LineCursor.putBack, hphase]
      rfl
    refine ⟨h.prompt, h.input, h.output, ?_, ?_, hback, ?_, fun hr => absurd hr (by simp)⟩
    · rw [hline]
      exact h.line
    · rw [hline]
      exact h.column
    · rw [hline]
      rfl

/-- **Dropping the rest keeps together.** -/
theorem dropRest (h : Follows r t) : Follows r.dropRest t.dropRest := by
  refine ⟨h.prompt, h.input, h.output, h.line, h.column, ?_, rfl, fun hr => absurd hr (by
    simp [TokenTape.dropRest])⟩
  rw [TokenReader.dropRest, LineCursor.pending_dropRest]
  exact List.drop_eq_nil_of_le (List.length_take_le _ _)

/-- A reader and a tape without a line stand at the same place. -/
theorem new (prompt : String) (input : Input) (output : Output) :
    Follows (TokenReader.new prompt input output) (TokenTape.new prompt input output) :=
  ⟨rfl, rfl, rfl, rfl, rfl, rfl, rfl, fun hr => absurd hr (by simp [TokenTape.new])⟩

end Follows

end TokenTape

/-- **A token reader shows what the tape of tokens shows**, whatever calls are made in whatever
order. -/
theorem observations_tokenReader (prompt : String) (input : Input) (output : Output)
    (script : List ReaderCall) :
    observations TokenReader.perform TokenReader.display script
      (TokenReader.new prompt input output) =
      observations TokenTape.perform TokenTape.display script
        (TokenTape.new prompt input output) := by
  have hshow : ∀ r t, TokenTape.Follows r t → r.display = t.display := fun _ _ h => h.display_eq
  refine observations_congr ?_ hshow script (TokenTape.Follows.new prompt input output)
  intro call r t h
  cases call with
  | next => exact ⟨congrArg some h.next.1, h.next.2⟩
  | putBack => exact ⟨rfl, h.putBack⟩
  | dropRest => exact ⟨rfl, h.dropRest⟩

end StackCalculator
