import Mathlib.Data.String.Basic
import StackCalculator.Proofs.Tape
import StackCalculator.Proofs.Tiling

/-!
# Byte offsets

A reader can as well keep its line as a string and its place in it as byte offsets. A string can be
cut at an offset only where a character begins or at its end; anywhere else there is nothing to be
had, and the reader would break down. The offsets of a line buffer come from spans in what is left
of a line, which have to be moved by the cursor, from the widths of characters that no pattern
matches, from an earlier start when a token is put back, and from the size of the line; and a line
may be replaced between any two of them.

Yet every cut is made at a character, whatever calls are made in whatever order, and whatever the
input and the output do. The reason is that a reader of tokens, which counts characters, stands at
the same place all along: the offsets are the sizes of what comes before its positions.

## Main definitions

* `cutAt? s offset`: a string cut in two at an offset
* `LineBuffer`, `BufferedReader`: a line with offsets into it, and a reader that keeps its line so
* `LineBuffer.Sound`: what holds of the offsets
* `BufferedReader.follow?`: what a script of calls shows, unless some string cannot be cut
* `LineCursor.Consistent`: what holds of the positions of a line cursor
* `TokenReader.buffered`: the buffered reader that stands at the same place

## Main results

* `cutAt?_eq_some_iff`: what a string is cut into
* `LineCursor.take?_buffer`: taking a token keeps a line buffer and a line cursor at the same place
* `LineCursor.Consistent.sound_buffer`: the offsets of a line cursor are sound
* `BufferedReader.follow?_new`: a buffered reader never breaks down, and its offsets stay sound
-/

namespace StackCalculator

/-! ## Strings that are cut -/

/-- **A string cut in two at an offset**, which counts bytes. It can be cut only where a character
begins, or at its end. -/
def cutAt? (s : String) (offset : Nat) : Option (String × String) :=
  if h : String.Pos.Raw.IsValid s ⟨offset⟩ then
    let p := s.pos ⟨offset⟩ h
    some ((s.sliceTo p).copy, (s.sliceFrom p).copy)
  else none

/-- **What a string is cut into**: two parts that make it up, of which the first ends at the
offset. -/
theorem cutAt?_eq_some_iff {s front behind : String} {offset : Nat} :
    cutAt? s offset = some (front, behind) ↔ s = front ++ behind ∧ front.utf8ByteSize = offset := by
  constructor
  · intro h
    rw [cutAt?] at h
    split at h
    · next hvalid =>
      have hsplits := (s.pos ⟨offset⟩ hvalid).splits
      cases h
      exact ⟨hsplits.eq_append, (congrArg String.Pos.Raw.byteIdx hsplits.offset_eq_rawEndPos).symm⟩
    · cases h
  · rintro ⟨rfl, rfl⟩
    have hvalid : String.Pos.Raw.IsValid (front ++ behind) ⟨front.utf8ByteSize⟩ :=
      String.Pos.Raw.isValid_iff_exists_append.mpr ⟨front, behind, rfl, rfl⟩
    have hsplits : ((front ++ behind).pos ⟨front.utf8ByteSize⟩ hvalid).Splits front behind :=
      ⟨rfl, rfl⟩
    obtain ⟨hfront, hbehind⟩ := (String.Pos.splits _).eq hsplits
    rw [cutAt?, dif_pos hvalid]
    exact congrArg some (Prod.ext hfront hbehind)

/-- A character of two bytes cannot be cut. -/
example : cutAt? "é~" 1 = none ∧ cutAt? "é~" 2 = some ("é", "~") ∧ cutAt? "é~" 4 = none := by decide

/-- The first lexeme of a string, with its span in bytes, if the string is not blank. -/
def firstLexeme? (s : String) : Option Lexeme :=
  (lexemes Char.utf8Size 0 s.toList).head?

/-! ## Line buffers -/

/-- **A line with offsets into it.** -/
structure LineBuffer where
  line : String
  /-- Where what is left of the line begins. -/
  cursor : Nat
  /-- Where the token taken last begins. -/
  start : Nat
  /-- Nothing more is to be had from the line. -/
  needsLine : Bool
  /-- The token taken last can be put back. -/
  canPutBack : Bool
deriving DecidableEq, Repr

namespace LineBuffer

/-- No line yet. -/
def none : LineBuffer :=
  ⟨"", 0, 0, true, false⟩

/-- The beginning of a line. -/
def ofLine (line : String) : LineBuffer :=
  ⟨line, 0, 0, false, false⟩

/-- Moving to what the lexer has found behind the cursor, where its spans begin. A character that no
pattern matches is read from the line. Should there be none, the replacement character would stand
for it, and should it end behind the line, the cursor would stay within the line. -/
def moveTo? (b : LineBuffer) : Option Lexeme → Option (Token × LineBuffer)
  | Option.none =>
    let size := b.line.utf8ByteSize
    some (.endOfLine, { b with
      start := size, cursor := size, needsLine := true, canPutBack := true })
  | some ⟨.invalid _, start, _⟩ => do
    let offset := b.cursor + start
    let (_, behind) ← cutAt? b.line offset
    let c := behind.toList.head?.getD Utf8.replacement
    some (.invalid c, { b with
      start := offset, cursor := min (offset + c.utf8Size) b.line.utf8ByteSize,
      canPutBack := true })
  | some ⟨t, start, stop⟩ =>
    some (t, { b with start := b.cursor + start, cursor := b.cursor + stop, canPutBack := true })

/-- **Taking the next token** of the line. -/
def take? (b : LineBuffer) : Option (Token × LineBuffer) := do
  let (_, rest) ← cutAt? b.line b.cursor
  b.moveTo? (firstLexeme? rest)

/-- **Putting back the token taken last**, if nothing else was done to the line since. -/
def putBack (b : LineBuffer) : LineBuffer :=
  if b.canPutBack then { b with cursor := b.start, needsLine := false, canPutBack := false } else b

/-- **Dropping the rest of the line.** -/
def dropRest (b : LineBuffer) : LineBuffer :=
  { b with cursor := b.line.utf8ByteSize, needsLine := true, canPutBack := false }

/-- **The column of the token taken last**, counted in characters from one. -/
def column? (b : LineBuffer) : Option Nat :=
  (cutAt? b.line b.start).map fun (front, _) => front.length + 1

/-- **What holds of the offsets**, after some calls of which `last?` is the token returned last. -/
structure Sound (b : LineBuffer) (last? : Option Token) : Prop where
  start_le : b.start ≤ b.cursor
  cursor_le : b.cursor ≤ b.line.utf8ByteSize
  start_isValid : String.Pos.Raw.IsValid b.line ⟨b.start⟩
  cursor_isValid : String.Pos.Raw.IsValid b.line ⟨b.cursor⟩
  cursor_eq : b.needsLine = true → b.cursor = b.line.utf8ByteSize
  /-- What is behind the start of a token that can be put back begins with this token, which ends at
  the cursor; the end of the line has nothing behind its start. -/
  again : b.canPutBack = true → ∃ t front behind, last? = some t ∧
    cutAt? b.line b.start = some (front, behind) ∧
    firstLexeme? behind =
      (if t = .endOfLine then Option.none else some ⟨t, 0, b.cursor - b.start⟩) ∧
    (t = .endOfLine ↔ b.start = b.line.utf8ByteSize)

/-- **No fallback is needed**: a character that no pattern matches is found in the line again, with
the span that the lexer gives it, and ends within the line. -/
def FindsUnmatched (b : LineBuffer) : Prop :=
  ∀ front rest c start stop, cutAt? b.line b.cursor = some (front, rest) →
    firstLexeme? rest = some ⟨.invalid c, start, stop⟩ →
      ∃ front' behind, cutAt? b.line (b.cursor + start) = some (front', behind) ∧
        behind.toList.head? = some c ∧ stop = start + c.utf8Size ∧
        b.cursor + stop ≤ b.line.utf8ByteSize

/-- **A token is taken at its span**, if no fallback is needed. -/
theorem take?_of_firstLexeme? {b : LineBuffer} {front rest : String} {t : Token} {start stop : Nat}
    (hcut : cutAt? b.line b.cursor = some (front, rest))
    (hfirst : firstLexeme? rest = some ⟨t, start, stop⟩) (h : b.FindsUnmatched) :
    b.take? = some (t, { b with
      start := b.cursor + start, cursor := b.cursor + stop, canPutBack := true }) := by
  have htake : b.take? = b.moveTo? (some ⟨t, start, stop⟩) := by
    rw [take?, hcut, ← hfirst]
    rfl
  rw [htake]
  cases t with
  | number text => rfl
  | identifier text => rfl
  | operator op => rfl
  | endOfLine => rfl
  | invalid c =>
    obtain ⟨front', behind, hcut', hhead, rfl, hle⟩ := h front rest c start stop hcut hfirst
    rw [← Nat.add_assoc] at hle ⊢
    simp only [moveTo?, hcut', Option.bind_eq_bind, Option.bind_some, hhead, Option.getD_some,
      Nat.min_eq_left hle]

/-- Where no token is found, the end of the line is taken. -/
theorem take?_of_firstLexeme?_eq_none {b : LineBuffer} {front rest : String}
    (hcut : cutAt? b.line b.cursor = some (front, rest))
    (hfirst : firstLexeme? rest = Option.none) :
    b.take? = some (.endOfLine, { b with
      start := b.line.utf8ByteSize, cursor := b.line.utf8ByteSize, needsLine := true
      canPutBack := true }) := by
  rw [take?, hcut]
  change b.moveTo? (firstLexeme? rest) = _
  rw [hfirst]
  rfl

end LineBuffer

/-! ## Buffered readers -/

/-- **A reader that keeps its line in a buffer.** -/
structure BufferedReader where
  prompt : String
  input : Input
  output : Output
  buffer : LineBuffer
  journal : List Remark

namespace BufferedReader

/-- A reader that has read nothing. -/
def new (prompt : String) (input : Input) (output : Output) : BufferedReader :=
  ⟨prompt, input, output, LineBuffer.none, []⟩

/-- **Prompting for a line and reading it.** Only a line that is read replaces the one in the
buffer. -/
def fetch (r : BufferedReader) : Except Interrupt Unit × BufferedReader :=
  match r.output.write r.prompt with
  | (.error reason, output) => (.error (.fatal (.stream reason)), { r with output })
  | (.ok (), output) =>
    match r.input.fetch with
    | (.line text, input) =>
      let line := String.ofList text
      (.ok (), { r with
        input, output, buffer := LineBuffer.ofLine line, journal := .lineRead line :: r.journal })
    | (.exhausted, input) =>
      (.error (.ended .endOfInput), { r with
        input, output, journal := .inputExhausted :: r.journal })
    | (.failed reason, input) => (.error (.fatal (.stream reason)), { r with input, output })

/-- A line is at hand, after this. -/
def ready (r : BufferedReader) : Except Interrupt Unit × BufferedReader :=
  if r.buffer.needsLine then r.fetch else (.ok (), r)

/-- Taking the next token of the line at hand. It is remarked with its column. -/
def take? (r : BufferedReader) : Option (Token × BufferedReader) := do
  let (t, buffer) ← r.buffer.take?
  let column ← buffer.column?
  some (t, { r with buffer, journal := .tokenTaken t column :: r.journal })

/-- **The next token**, from the next line if this one is finished. -/
def next? (r : BufferedReader) : Option (Except Interrupt Token × BufferedReader) :=
  match r.ready with
  | (.ok (), r) => r.take?.map fun (t, r) => (.ok t, r)
  | (.error i, r) => some (.error i, r)

/-- A call to a buffered reader, and its answer. -/
def perform? (call : ReaderCall) (r : BufferedReader) :
    Option (Option (Except Interrupt Token) × BufferedReader) :=
  match call with
  | .next => r.next?.map fun (answer, r) => (some answer, r)
  | .putBack => some (none, { r with buffer := r.buffer.putBack })
  | .dropRest => some (none, { r with buffer := r.buffer.dropRest })

/-- What a buffered reader shows. -/
def display? (r : BufferedReader) : Option Display :=
  r.buffer.column?.map fun column => ⟨column, r.buffer.line.toList, r.input, r.output⟩

/-- **What a script of calls shows**, and the reader after it, unless some string cannot be cut. -/
def follow? : List ReaderCall → BufferedReader →
    Option (List (Option (Except Interrupt Token) × Display) × BufferedReader)
  | [], r => some ([], r)
  | call :: script, r => do
    let (answer, r) ← r.perform? call
    let display ← r.display?
    let (shown, r) ← follow? script r
    some ((answer, display) :: shown, r)

/-- **What holds of a buffered reader** after some calls of which `last?` is the token returned
last: its offsets are sound, and the next call needs no fallback. -/
structure Sound (r : BufferedReader) (last? : Option Token) : Prop where
  buffer : r.buffer.Sound last?
  findsUnmatched : ∀ r', r.ready = (.ok (), r') → r'.buffer.FindsUnmatched

end BufferedReader

/-! ## The offset of a position -/

/-- The extent of a text in bytes is the size of the string. -/
theorem extent_utf8Size (cs : List Char) :
    extent Char.utf8Size cs = (String.ofList cs).utf8ByteSize := by
  rw [String.utf8ByteSize_ofList]
  induction cs with
  | nil => rfl
  | cons c cs ih => rw [extent_cons, ih, String.utf8Len_cons, Nat.add_comm]

/-- **The offset of a position in a text**: the size of what comes before it. -/
def byteOffset (text : List Char) (position : Nat) : Nat :=
  extent Char.utf8Size (text.take position)

/-- **A text can be cut at the offset of a position**, and is cut there. -/
theorem cutAt?_byteOffset (text : List Char) (position : Nat) :
    cutAt? (String.ofList text) (byteOffset text position) =
      some (String.ofList (text.take position), String.ofList (text.drop position)) := by
  refine cutAt?_eq_some_iff.mpr ⟨?_, (extent_utf8Size _).symm⟩
  rw [← String.ofList_append, List.take_append_drop]

theorem isValid_byteOffset (text : List Char) (position : Nat) :
    String.Pos.Raw.IsValid (String.ofList text) ⟨byteOffset text position⟩ :=
  String.Pos.Raw.isValid_ofList.mpr ⟨position, extent_utf8Size _⟩

/-- Behind a position, offsets go on by the size of what lies between. -/
theorem byteOffset_add {text front behind : List Char} {position : Nat}
    (h : text.drop position = front ++ behind) :
    byteOffset text (position + front.length) =
      byteOffset text position + extent Char.utf8Size front := by
  rw [byteOffset, List.take_add, h, List.take_left, extent_append, byteOffset]

/-- The offset behind the last character is the size of the string. -/
theorem byteOffset_length (text : List Char) :
    byteOffset text text.length = (String.ofList text).utf8ByteSize := by
  rw [byteOffset, List.take_length, extent_utf8Size]

/-- **Offsets grow with their positions.** -/
theorem byteOffset_lt (text : List Char) {m n : Nat} (h : m < n) (hn : n ≤ text.length) :
    byteOffset text m < byteOffset text n := by
  obtain ⟨k, rfl⟩ := Nat.exists_eq_add_of_lt h
  have hbetween : (text.drop m).take (k + 1) ≠ [] := by
    simp only [ne_eq, List.take_eq_nil_iff, List.drop_eq_nil_iff]
    omega
  have hpos := extent_pos Char.utf8Size_pos hbetween
  rw [byteOffset, byteOffset, Nat.add_assoc, List.take_add, extent_append]
  omega

theorem byteOffset_mono (text : List Char) {m n : Nat} (h : m ≤ n) :
    byteOffset text m ≤ byteOffset text n := by
  obtain ⟨k, rfl⟩ := Nat.exists_eq_add_of_le h
  rw [byteOffset, byteOffset, List.take_add, extent_append]
  exact Nat.le_add_right _ _

theorem byteOffset_le (text : List Char) (position : Nat) :
    byteOffset text position ≤ (String.ofList text).utf8ByteSize :=
  (isValid_byteOffset text position).le_utf8ByteSize

/-- **The first lexeme of a text** is its first token behind the blanks, unless nothing is there. -/
theorem firstLexeme?_ofList (cs : List Char) :
    let t := Token.first (cs.dropWhile isBlank)
    let start := extent Char.utf8Size (cs.takeWhile isBlank)
    firstLexeme? (String.ofList cs) =
      if t = .endOfLine then none else some ⟨t, start, start + extent Char.utf8Size t.written⟩ := by
  intro t start
  rw [firstLexeme?, String.toList_ofList, lexemes]
  by_cases h : cs.dropWhile isBlank = []
  · rw [dif_pos h, if_pos (Token.first_eq_endOfLine_iff.mpr h)]
    rfl
  · rw [dif_neg h, if_neg fun he => h (Token.first_eq_endOfLine_iff.mp he)]
    simp only [List.head?_cons, Nat.zero_add]
    rfl

namespace LineCursor

/-- **The line buffer that stands at the same place.** -/
def buffer (l : LineCursor) : LineBuffer where
  line := String.ofList l.text
  cursor := byteOffset l.text l.cursor
  start := byteOffset l.text l.start
  needsLine := l.phase.isFinished
  canPutBack := l.phase.canPutBack

theorem cutAt?_cursor (l : LineCursor) :
    cutAt? l.buffer.line l.buffer.cursor =
      some (String.ofList (l.text.take l.cursor), String.ofList l.rest) :=
  cutAt?_byteOffset l.text l.cursor

/-- The blanks before the next token, in bytes. -/
def blankSize (l : LineCursor) : Nat :=
  extent Char.utf8Size (l.rest.takeWhile isBlank)

/-- The next token, in bytes. -/
def tokenSize (l : LineCursor) : Nat :=
  extent Char.utf8Size l.upcoming.written

theorem firstLexeme?_rest (l : LineCursor) : firstLexeme? (String.ofList l.rest) =
    if l.upcoming = .endOfLine then Option.none
    else some ⟨l.upcoming, l.blankSize, l.blankSize + l.tokenSize⟩ :=
  firstLexeme?_ofList l.rest

theorem byteOffset_upcomingStart (l : LineCursor) :
    byteOffset l.text l.upcomingStart = l.buffer.cursor + l.blankSize :=
  have hrest : l.text.drop l.cursor = l.rest.takeWhile isBlank ++ l.rest.dropWhile isBlank :=
    List.takeWhile_append_dropWhile.symm
  byteOffset_add hrest

theorem byteOffset_take_cursor (l : LineCursor) :
    byteOffset l.text l.take.2.cursor = l.buffer.cursor + (l.blankSize + l.tokenSize) := by
  have hstop := byteOffset_add (l.drop_upcomingStart.trans (Token.written_first_append _).symm)
  rw [l.byteOffset_upcomingStart, Nat.add_assoc] at hstop
  exact hstop

/-- **A line buffer at the same place needs no fallback.** -/
theorem findsUnmatched_buffer (l : LineCursor) : l.buffer.FindsUnmatched := by
  intro front rest c start stop hcut hfirst
  cases l.cutAt?_cursor.symm.trans hcut
  rw [firstLexeme?_rest] at hfirst
  split at hfirst
  · cases hfirst
  · obtain ⟨hupcoming, rfl, rfl⟩ := Lexeme.mk.inj (Option.some.inj hfirst)
    have hsize : l.tokenSize = c.utf8Size := by
      rw [tokenSize, hupcoming]
      exact Nat.zero_add _
    refine ⟨String.ofList (l.text.take l.upcomingStart),
      String.ofList (l.text.drop l.upcomingStart), ?_, ?_, by rw [hsize], ?_⟩
    · rw [← l.byteOffset_upcomingStart]
      exact cutAt?_byteOffset l.text l.upcomingStart
    · have hbehind := l.drop_upcomingStart.trans (Token.written_first_append _).symm
      have hwritten : (Token.first (l.rest.dropWhile isBlank)).written = [c] :=
        congrArg Token.written hupcoming
      rw [String.toList_ofList, hbehind, hwritten]
      rfl
    · rw [← l.byteOffset_take_cursor]
      exact byteOffset_le _ _

/-- What a token moves, other than the end of the line. -/
theorem buffer_take {l : LineCursor} (hopen : l.phase.isFinished = false)
    (h : l.upcoming ≠ .endOfLine) : l.take.2.buffer = { l.buffer with
      start := l.buffer.cursor + l.blankSize
      cursor := l.buffer.cursor + (l.blankSize + l.tokenSize)
      canPutBack := true } := by
  have hphase : l.take.2.phase = .taken := by simp only [take, if_neg h]
  rw [← l.byteOffset_upcomingStart, ← l.byteOffset_take_cursor]
  simp only [buffer, hphase, hopen, take_text]
  rfl

/-- Where the end of the line comes next, only blanks are left, and it starts behind them. -/
theorem upcomingStart_of_endOfLine {l : LineCursor} (hcursor : l.cursor ≤ l.text.length)
    (h : l.upcoming = .endOfLine) : l.upcomingStart = l.text.length := by
  have hblank : l.rest.dropWhile isBlank = [] := upcoming_eq_endOfLine_iff.mp h
  rw [upcomingStart, length_takeWhile_of_dropWhile_eq_nil hblank, rest, List.length_drop]
  exact Nat.add_sub_of_le hcursor

/-- What the end of the line moves. -/
theorem buffer_take_of_endOfLine {l : LineCursor} (hcursor : l.cursor ≤ l.text.length)
    (h : l.upcoming = .endOfLine) : l.take.2.buffer = { l.buffer with
      start := l.buffer.line.utf8ByteSize
      cursor := l.buffer.line.utf8ByteSize
      needsLine := true
      canPutBack := true } := by
  have htake : l.take.2 = ⟨l.text, l.text.length, l.text.length, .ended⟩ := by
    simp only [take, h, upcomingStart_of_endOfLine hcursor h, if_true]
    rfl
  rw [htake]
  simp only [buffer, byteOffset_length]
  rfl

/-- **Taking a token keeps a line buffer at the same place.** -/
theorem take?_buffer {l : LineCursor} (h : l.cursor ≤ l.text.length)
    (hopen : l.phase.isFinished = false) : l.buffer.take? = some (l.take.1, l.take.2.buffer) := by
  have hfirst := l.firstLexeme?_rest
  by_cases hend : l.upcoming = .endOfLine
  · rw [if_pos hend] at hfirst
    rw [LineBuffer.take?_of_firstLexeme?_eq_none l.cutAt?_cursor hfirst, take_fst,
      buffer_take_of_endOfLine h hend, hend]
  · rw [if_neg hend] at hfirst
    rw [LineBuffer.take?_of_firstLexeme? l.cutAt?_cursor hfirst l.findsUnmatched_buffer, take_fst,
      buffer_take hopen hend]

/-- A character of two bytes that no pattern matches moves the offset by its width. -/
example : (LineBuffer.ofLine " é~").take? = some (.invalid 'é', ⟨" é~", 3, 1, false, true⟩) := by
  decide +kernel

/-! ## Cursors that are consistent -/

/-- **What holds of a line cursor** after some calls of which `last?` is the token returned last. -/
structure Consistent (l : LineCursor) (last? : Option Token) : Prop where
  start_le : l.start ≤ l.cursor
  cursor_le : l.cursor ≤ l.text.length
  cursor_eq : l.phase.isFinished = true → l.cursor = l.text.length
  /-- A token that can be put back stands between the start and the cursor, with no blank before
  it. -/
  again : l.phase.canPutBack = true → ∃ t, last? = some t ∧ Token.first (l.text.drop l.start) = t ∧
    (l.text.drop l.start).takeWhile isBlank = [] ∧ l.cursor = l.start + t.written.length

theorem consistent_none (last? : Option Token) : none.Consistent last? :=
  ⟨Nat.le_refl 0, Nat.le_refl 0, fun _ => rfl, fun hback => absurd hback Bool.false_ne_true⟩

theorem consistent_ofLine (text : List Char) (last? : Option Token) :
    (ofLine text).Consistent last? :=
  ⟨Nat.le_refl 0, Nat.zero_le _, fun hdone => absurd hdone Bool.false_ne_true,
    fun hback => absurd hback Bool.false_ne_true⟩

/-- **Taking a token leaves a cursor consistent**, whatever was returned before. -/
theorem consistent_take {l : LineCursor} (h : l.cursor ≤ l.text.length) :
    l.take.2.Consistent (some l.take.1) where
  start_le := Nat.le_add_right _ _
  cursor_le := cursor_take_le h
  cursor_eq hfinished := by
    have hend : l.upcoming = .endOfLine := by
      by_contra hother
      rw [not_isFinished_take hother] at hfinished
      cases hfinished
    rw [take_cursor, upcomingStart_of_endOfLine h hend, hend]
    rfl
  again _ := by
    have hbehind : l.take.2.text.drop l.take.2.start = l.rest.dropWhile isBlank :=
      l.drop_upcomingStart
    rw [hbehind]
    exact ⟨_, rfl, rfl,
      List.takeWhile_eq_nil_iff.mpr fun h => List.dropWhile_get_zero_not _ _ h, rfl⟩

namespace Consistent

variable {l : LineCursor} {last? : Option Token}

theorem putBack (h : l.Consistent last?) : l.putBack.Consistent last? := by
  rw [LineCursor.putBack]
  split
  · exact ⟨Nat.le_refl _, Nat.le_trans h.start_le h.cursor_le,
      fun hdone => absurd hdone Bool.false_ne_true, fun hback => absurd hback Bool.false_ne_true⟩
  · exact h

theorem dropRest (h : l.Consistent last?) : l.dropRest.Consistent last? :=
  ⟨Nat.le_trans h.start_le h.cursor_le, Nat.le_refl _, fun _ => rfl,
    fun hback => absurd hback Bool.false_ne_true⟩

/-- **The offsets of a consistent cursor are sound.** -/
theorem sound_buffer (h : l.Consistent last?) : l.buffer.Sound last? where
  start_le := byteOffset_mono l.text h.start_le
  cursor_le := byteOffset_le l.text l.cursor
  start_isValid := isValid_byteOffset l.text l.start
  cursor_isValid := isValid_byteOffset l.text l.cursor
  cursor_eq hfinished := by
    have := byteOffset_length l.text
    rwa [← h.cursor_eq hfinished] at this
  again hback := by
    obtain ⟨t, hlast, rfl, hblank, hcursor⟩ := h.again hback
    have hbehind := List.takeWhile_append_dropWhile (p := isBlank) (l := l.text.drop l.start)
    rw [hblank, List.nil_append] at hbehind
    refine ⟨_, _, _, hlast, cutAt?_byteOffset l.text l.start, ?_, ?_⟩
    · have hsize := byteOffset_add (Token.written_first_append (l.text.drop l.start)).symm
      rw [← hcursor] at hsize
      rw [firstLexeme?_ofList, hbehind, hblank]
      simp only [buffer, hsize, extent_nil, Nat.zero_add, Nat.add_sub_cancel_left]
    · rw [Token.first_eq_endOfLine_iff, List.drop_eq_nil_iff, buffer, ← byteOffset_length]
      refine ⟨fun hstart => ?_, fun hoffset => ?_⟩
      · rw [Nat.le_antisymm (Nat.le_trans h.start_le h.cursor_le) hstart]
      · by_contra hstart
        have := byteOffset_lt l.text (Nat.lt_of_not_le hstart) (Nat.le_refl _)
        exact absurd hoffset (Nat.ne_of_lt this)

/-- The column of a token is the number of characters before its offset, and one more. -/
theorem column?_buffer (h : l.Consistent last?) : l.buffer.column? = some l.column := by
  rw [LineBuffer.column?, buffer, cutAt?_byteOffset]
  simp only [Option.map_some, String.length_ofList,
    List.length_take_of_le (h.start_le.trans h.cursor_le)]
  rfl

end Consistent

theorem buffer_putBack (l : LineCursor) : l.putBack.buffer = l.buffer.putBack := by
  rw [LineCursor.putBack, LineBuffer.putBack]
  change _ = if l.phase.canPutBack = true then _ else _
  split <;> rfl

theorem buffer_dropRest (l : LineCursor) : l.dropRest.buffer = l.buffer.dropRest := by
  rw [LineCursor.dropRest, LineBuffer.dropRest, buffer, byteOffset_length]
  rfl

end LineCursor

namespace TokenReader

/-! ## A reader with a buffer at the same place -/

/-- **The buffered reader that stands at the same place.** -/
def buffered (r : TokenReader) : BufferedReader :=
  ⟨r.prompt, r.input, r.output, r.line.buffer, r.journal⟩

/-- **Fetching a line keeps a buffered reader at the same place.** -/
theorem fetch_buffered (r : TokenReader) : r.buffered.fetch = (r.fetch.1, r.fetch.2.buffered) := by
  obtain ⟨prompt, input, output, line, journal⟩ := r
  simp only [buffered, BufferedReader.fetch, fetch, write]
  cases output.write prompt with
  | mk result output =>
    cases result with
    | error reason => rfl
    | ok u =>
      simp only [receive]
      cases input.fetch with
      | mk fetched input => cases fetched <;> rfl

theorem ready_buffered (r : TokenReader) : r.buffered.ready = (r.ready.1, r.ready.2.buffered) := by
  rw [BufferedReader.ready, ready]
  change (if r.line.phase.isFinished = true then _ else _) = _
  split
  · exact r.fetch_buffered
  · rfl

theorem take?_buffered {r : TokenReader} (h : r.line.cursor ≤ r.line.text.length)
    (hopen : r.line.phase.isFinished = false) :
    r.buffered.take? = some (r.take.1, r.take.2.buffered) := by
  have htake : r.buffered.buffer.take? = some (r.line.take.1, r.line.take.2.buffer) :=
    LineCursor.take?_buffer h hopen
  have hcolumn := (LineCursor.consistent_take h).column?_buffer
  simp only [BufferedReader.take?, htake, hcolumn, Option.bind_eq_bind, Option.bind_some]
  rfl

/-- The line of a reader stays as it is until another line is fetched. -/
theorem line_ready_cases (r : TokenReader) :
    r.ready.2.line = r.line ∨ ∃ text, r.ready.2.line = LineCursor.ofLine text := by
  rw [ready, fetch]
  have hline := write_line r.prompt r
  generalize r.write r.prompt = written at hline
  obtain ⟨err | u, r₁⟩ := written
  · split
    · exact .inl hline
    · exact .inl rfl
  · simp only [receive]
    split
    · split
      · exact .inr ⟨_, rfl⟩
      · exact .inl hline
      · exact .inl hline
    · exact .inl rfl

theorem consistent_ready {r : TokenReader} {last? : Option Token} (h : r.line.Consistent last?) :
    r.ready.2.line.Consistent last? := by
  rcases r.line_ready_cases with hsame | ⟨text, hnew⟩
  · rwa [hsame]
  · rw [hnew]
    exact LineCursor.consistent_ofLine text last?

/-- **Asking for a token keeps a buffered reader at the same place**, and the line consistent. -/
theorem next?_buffered {r : TokenReader} {last? : Option Token} (h : r.line.Consistent last?) :
    r.buffered.next? = some (r.next.1, r.next.2.buffered) ∧
      r.next.2.line.Consistent (Option.or (r.next.1.toOption) last?) := by
  have hready := consistent_ready h
  rw [BufferedReader.next?, ready_buffered, next]
  rcases hr : r.ready with ⟨i | u, r'⟩
  · rw [hr] at hready
    exact ⟨rfl, hready⟩
  · rw [hr] at hready
    have htake := take?_buffered hready.cursor_le (not_isFinished_of_ready hr)
    refine ⟨?_, LineCursor.consistent_take hready.cursor_le⟩
    simp only [htake, Option.map_some]

/-- **Any call keeps a buffered reader at the same place**, and the line consistent. -/
theorem perform?_buffered (call : ReaderCall) {r : TokenReader} {last? : Option Token}
    (h : r.line.Consistent last?) :
    r.buffered.perform? call = some ((r.perform call).1, (r.perform call).2.buffered) ∧
      (r.perform call).2.line.Consistent (((r.perform call).1.bind Except.toOption).or last?) := by
  cases call with
  | next =>
    obtain ⟨hnext, hline⟩ := next?_buffered h
    refine ⟨?_, hline⟩
    simp only [BufferedReader.perform?, hnext, Option.map_some]
    rfl
  | putBack =>
    refine ⟨?_, h.putBack⟩
    simp only [BufferedReader.perform?, perform, buffered, putBack, LineCursor.buffer_putBack]
  | dropRest =>
    refine ⟨?_, h.dropRest⟩
    simp only [BufferedReader.perform?, perform, buffered, dropRest, LineCursor.buffer_dropRest]

/-- A buffered reader at the same place shows the same. -/
theorem display?_buffered {r : TokenReader} {last? : Option Token} (h : r.line.Consistent last?) :
    r.buffered.display? = some r.display := by
  have hcolumn : r.buffered.buffer.column? = some r.line.column := h.column?_buffer
  have hline : r.buffered.buffer.line.toList = r.line.text := String.toList_ofList
  rw [BufferedReader.display?, hcolumn, Option.map_some, hline]
  rfl

/-- **A buffered reader at the same place is sound**, if the line is consistent. -/
theorem sound_buffered {r : TokenReader} {last? : Option Token} (h : r.line.Consistent last?) :
    r.buffered.Sound last? where
  buffer := h.sound_buffer
  findsUnmatched r' hready := by
    obtain rfl := congrArg Prod.snd (r.ready_buffered.symm.trans hready)
    exact r.ready.2.line.findsUnmatched_buffer

end TokenReader

namespace BufferedReader

/-- The tokens that are returned in the course of what a script shows. -/
def returned (shown : List (Option (Except Interrupt Token) × Display)) : List Token :=
  shown.filterMap fun x => x.1.bind Except.toOption

theorem getLast?_returned_cons (x : Option (Except Interrupt Token) × Display)
    (shown : List (Option (Except Interrupt Token) × Display)) (last? : Option Token) :
    (returned (x :: shown)).getLast?.or last? =
      (returned shown).getLast?.or ((x.1.bind Except.toOption).or last?) := by
  have hcons : returned (x :: shown) = (x.1.bind Except.toOption).toList ++ returned shown := by
    rw [returned, List.filterMap_cons]
    cases x.1.bind Except.toOption <;> rfl
  rw [hcons, List.getLast?_append, Option.or_assoc]
  cases x.1.bind Except.toOption <;> rfl

/-- **A script shows the same** on a buffered reader as on a token reader at the same place, and
leaves them at the same place. -/
theorem follow?_buffered (script : List ReaderCall) : ∀ {r : TokenReader} {last? : Option Token},
    r.line.Consistent last? →
      let shown := observations TokenReader.perform TokenReader.display script r
      ∃ r' : TokenReader, follow? script r.buffered = some (shown, r'.buffered) ∧
        r'.line.Consistent ((returned shown).getLast?.or last?) := by
  -- the consistent line carries the induction: it makes each call succeed, and the next one too
  induction script with
  | nil => exact fun h => ⟨_, rfl, h⟩
  | cons call script ih =>
    intro r last? h shown
    obtain ⟨hperform, hline⟩ := TokenReader.perform?_buffered call h
    obtain ⟨r', hfollow, hlast⟩ := ih hline
    refine ⟨r', ?_, ?_⟩
    · simp only [follow?, hperform, TokenReader.display?_buffered hline, hfollow,
        Option.bind_eq_bind, Option.bind_some]
      rfl
    · change r'.line.Consistent ((returned ((_, _) :: _)).getLast?.or last?)
      rw [getLast?_returned_cons]
      exact hlast

/-- **A buffered reader never breaks down**, whatever calls are made in whatever order, and whatever
its streams do: every string it cuts can be cut there. It shows what a token reader shows; and after
any calls its offsets are sound, and the next one needs no fallback. -/
theorem follow?_new (prompt : String) (input : Input) (output : Output) (script : List ReaderCall) :
    let shown :=
      observations TokenReader.perform TokenReader.display script
        (TokenReader.new prompt input output)
    ∃ r, follow? script (new prompt input output) = some (shown, r) ∧
      r.Sound (returned shown).getLast? := by
  intro shown
  have hnew : (TokenReader.new prompt input output).line.Consistent none :=
    LineCursor.consistent_none none
  obtain ⟨r, hfollow, hline⟩ := follow?_buffered script hnew
  rw [Option.or_none] at hline
  exact ⟨r.buffered, hfollow, TokenReader.sound_buffered hline⟩

end BufferedReader

end StackCalculator
