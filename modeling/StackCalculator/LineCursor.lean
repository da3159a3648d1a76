import StackCalculator.Token

/-!
# A cursor on a line

The tokens of a line are taken one by one from where the cursor stands. The token taken last can be
put back, once; the rest of the line can be dropped. A line is finished when its end was taken or
its rest dropped, unless the end is put back.

## Main definitions

* `Phase`: what was done to the line last
* `LineCursor`: a line, the start of the token taken last, and the cursor
* `LineCursor.take`, `LineCursor.putBack`, `LineCursor.dropRest`: the moves

## Main results

* `LineCursor.remaining_take_lt`: taking a token other than the end leaves less of the line
-/

namespace StackCalculator

/-- **What was done to a line last.** -/
inductive Phase where
  /-- The rest was dropped, or there was no line at all. -/
  | dropped
  /-- The end was taken. -/
  | ended
  /-- A token was taken. -/
  | taken
  /-- The line was begun, or the token taken last was put back. -/
  | waiting
deriving DecidableEq, Repr

namespace Phase

/-- Nothing more is to be had from the line. -/
def isFinished : Phase → Bool
  | dropped | ended => true
  | taken | waiting => false

/-- The token taken last can be put back. -/
def canPutBack : Phase → Bool
  | ended | taken => true
  | dropped | waiting => false

end Phase

/-- **A cursor on a line.** Positions count the characters before them. -/
structure LineCursor where
  text : List Char
  start : Nat
  cursor : Nat
  phase : Phase
deriving DecidableEq, Repr

namespace LineCursor

/-- No line yet. -/
def none : LineCursor :=
  ⟨[], 0, 0, .dropped⟩

/-- The beginning of a line. -/
def ofLine (text : List Char) : LineCursor :=
  ⟨text, 0, 0, .waiting⟩

/-- The column of the token taken last, counted from one. -/
def column (l : LineCursor) : Nat :=
  l.start + 1

/-- The text behind the cursor. -/
def rest (l : LineCursor) : List Char :=
  l.text.drop l.cursor

/-- The number of characters behind the cursor. -/
def remaining (l : LineCursor) : Nat :=
  l.text.length - l.cursor

/-- The token that comes next. -/
def upcoming (l : LineCursor) : Token :=
  Token.first (l.rest.dropWhile isBlank)

/-- Where the token that comes next starts. -/
def upcomingStart (l : LineCursor) : Nat :=
  l.cursor + (l.rest.takeWhile isBlank).length

/-- **Taking the next token**: the cursor moves behind it. -/
def take (l : LineCursor) : Token × LineCursor :=
  let token := l.upcoming
  let phase := if token = .endOfLine then .ended else .taken
  (token, ⟨l.text, l.upcomingStart, l.upcomingStart + token.written.length, phase⟩)

/-- **Putting back the token taken last**, so that it is taken again. Nothing happens unless taking
it was the last thing done to the line. -/
def putBack (l : LineCursor) : LineCursor :=
  if l.phase.canPutBack then { l with cursor := l.start, phase := .waiting } else l

/-- **Dropping the rest of the line.** -/
def dropRest (l : LineCursor) : LineCursor :=
  { l with cursor := l.text.length, phase := .dropped }

@[simp]
theorem take_fst (l : LineCursor) : l.take.1 = l.upcoming := rfl

@[simp]
theorem take_text (l : LineCursor) : l.take.2.text = l.text := rfl

@[simp]
theorem take_cursor (l : LineCursor) :
    l.take.2.cursor = l.upcomingStart + l.upcoming.written.length := rfl

@[simp]
theorem dropRest_phase (l : LineCursor) : l.dropRest.phase = .dropped := rfl

theorem take_phase_of_endOfLine {l : LineCursor} (h : l.upcoming = .endOfLine) :
    l.take.2.phase = .ended := by
  simp [take, h]

/-- The text behind the cursor is the blanks there and everything behind them. -/
theorem length_rest (l : LineCursor) :
    l.remaining = (l.rest.takeWhile isBlank).length + (l.rest.dropWhile isBlank).length := by
  rw [← List.length_append, List.takeWhile_append_dropWhile, rest, List.length_drop, remaining]

/-- **Taking a token other than the end leaves less of the line.** -/
theorem remaining_take_lt {l : LineCursor} (h : l.upcoming ≠ .endOfLine) :
    l.take.2.remaining < l.remaining := by
  have hne : l.rest.dropWhile isBlank ≠ [] := fun h' => h (Token.first_eq_endOfLine_iff.mpr h')
  have hpos := List.length_pos_iff.mpr hne
  have hlen := l.length_rest
  have htok := List.length_pos_iff.mpr (Token.written_first_ne_nil hne)
  simp only [remaining, take_text, take_cursor, upcomingStart, upcoming] at hlen ⊢
  omega

end LineCursor

end StackCalculator
