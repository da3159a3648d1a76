import StackCalculator.Proofs.Events
import StackCalculator.Proofs.Renaming

/-!
# Separators

Tokens can be written down with any runs of blanks around them, and read back from the line that
this gives. Most tokens stay apart without a blank: an operator ends whatever comes before it, and
in `12x3` the name begins where the number ends. Only where the second token begins with a character
that the first could go on with do the two run together, and the answer is another list of tokens
from there on. So the blanks that are needed are exactly those between such tokens.

## Main definitions

* `SpacedToken`: a token with the blanks before it
* `spread xs behind`: the line that such tokens are written to
* `placed position xs behind`: such tokens with their columns
* `Token.merges t u`: the second token would run into the first
* `Separated xs`: blanks stand between all tokens that would run together
* `TokenReader.askLine`: all tokens of a line, asked for one by one

## Main results

* `Token.stops_written_iff`: a token does not prolong another unless the two merge
* `lineTokens_spread`: separated tokens are read back, each at its column
* `separated_of_textTokens`: no other tokens are
* `TokenReader.askLine_spread_iff`: a reader gives the tokens of the line if and only if they are
  separated
-/

namespace StackCalculator

/-! ## Which tokens merge -/

theorem isNamePart_eq (c : Char) : isNamePart c = (isNameStart c || c.isDigit) := by
  rw [isNamePart, isNameStart, Char.isAlphanum, Bool.or_assoc, Bool.or_assoc,
    Bool.or_comm c.isDigit]

namespace Token

/-- **The second token would run into the first**, were there no blank between them. -/
def merges : Token → Token → Bool
  | number _, number _ | identifier _, number _ | identifier _, identifier _ => true
  | number _, invalid c => c = '.'
  | _, _ => false

/-- **A token prolongs another if and only if the two merge.** -/
theorem stops_written_iff {t u : Token} (ht : t.Shaped) (hu : u.Shaped) (rest : List Char) :
    t.Stops (u.written ++ rest) ↔ t.merges u = false := by
  cases t with
  | number text =>
    cases u with
    | number text' =>
      obtain ⟨c, cs, hwritten, hc, -⟩ := hu
      simp [Stops, written, merges, hwritten, isNumberPart, hc]
    | identifier text' =>
      obtain ⟨c, cs, hwritten, hc, -⟩ := hu
      have hdot : c ≠ '.' := by
        rintro rfl
        exact absurd hc (by decide)
      simp [Stops, written, merges, hwritten, isNumberPart, isDigit_of_isNameStart hc, hdot]
    | operator op =>
      have hop : isNumberPart op.symbol = false := by
        rcases op with (_ | _ | _ | _) | _ | _ <;> decide
      simp [Stops, written, merges, hop]
    | invalid c =>
      obtain ⟨-, hd, -, -⟩ := hu
      simp [Stops, written, merges, isNumberPart, hd]
    | endOfLine => exact hu.elim
  | identifier text =>
    cases u with
    | number text' =>
      obtain ⟨c, cs, hwritten, hc, -⟩ := hu
      simp [Stops, written, merges, hwritten, isNamePart_eq, hc]
    | identifier text' =>
      obtain ⟨c, cs, hwritten, hc, -⟩ := hu
      simp [Stops, written, merges, hwritten, isNamePart_eq, hc]
    | operator op =>
      obtain ⟨-, hd, hn⟩ := symbol_starts_nothing op
      simp [Stops, written, merges, isNamePart_eq, hd, hn]
    | invalid c =>
      obtain ⟨-, hd, hn, -⟩ := hu
      simp [Stops, written, merges, isNamePart_eq, hd, hn]
    | endOfLine => exact hu.elim
  | operator | invalid => simp [Stops, merges]
  | endOfLine => exact ht.elim

/-- A character that neither numbers nor names go on with belongs to no token but the one it is. -/
theorem eq_invalid_of_mem_written {t : Token} {c : Char} (hc : Renaming.Separates c) (ht : t.Shaped)
    (hmem : c ∈ t.written) : t = .invalid c := by
  obtain ⟨⟨-, hdigit, hstart, hop⟩, hnumber, hname⟩ := hc
  cases t with
  | number text =>
    obtain ⟨d, ds, htext, hd, hds⟩ := ht
    rw [written, htext] at hmem
    rcases List.mem_cons.mp hmem with rfl | hmem
    · exact absurd hd (by simp [hdigit])
    · exact absurd (hds c hmem) (by simp [hnumber])
  | identifier text =>
    obtain ⟨d, ds, htext, hd, hds⟩ := ht
    rw [written, htext] at hmem
    rcases List.mem_cons.mp hmem with rfl | hmem
    · exact absurd hd (by simp [hstart])
    · exact absurd (hds c hmem) (by simp [hname])
  | operator op =>
    rw [List.mem_singleton.mp hmem, Operator.ofSymbol?_eq_some_iff.mpr rfl] at hop
    cases hop
  | invalid d => rw [List.mem_singleton.mp hmem]
  | endOfLine => exact ht.elim

end Token

/-! ## Tokens spread over a line -/

/-- **A token with the blanks before it.** -/
structure SpacedToken where
  blanks : List Char
  token : Token
  isBlank_of_mem : ∀ b ∈ blanks, isBlank b = true
  shaped : token.Shaped
  /-- A line feed would end the line. -/
  ne_lineFeed : token ≠ .invalid '\n'

/-- **The line that tokens are written to**, with some text behind the last. -/
def spread : List SpacedToken → List Char → List Char
  | [], behind => behind
  | x :: xs, behind => x.blanks ++ (x.token.written ++ spread xs behind)

/-- **The tokens of such a line with their columns**: one plus the number of characters before each,
and one plus the length of the line for its end. The line begins at the position given. -/
def placed (position : Nat) : List SpacedToken → List Char → List (Token × Nat)
  | [], behind => [(.endOfLine, position + behind.length + 1)]
  | x :: xs, behind =>
    (x.token, position + x.blanks.length + 1) ::
      placed (position + x.blanks.length + x.token.written.length) xs behind

/-- **Blanks stand between all tokens that would run together.** -/
def Separated (xs : List SpacedToken) : Prop :=
  xs.IsChain fun x y => x.token.merges y.token = true → y.blanks ≠ []

instance (xs : List SpacedToken) : Decidable (Separated xs) :=
  inferInstanceAs (Decidable (List.IsChain _ xs))

variable {x y : SpacedToken} {xs : List SpacedToken} {behind : List Char}

theorem separated_cons_cons : Separated (x :: y :: xs) ↔
    (x.token.merges y.token = true → y.blanks ≠ []) ∧ Separated (y :: xs) :=
  List.isChain_cons_cons

theorem map_fst_placed (position : Nat) (xs : List SpacedToken) (behind : List Char) :
    (placed position xs behind).map Prod.fst = xs.map SpacedToken.token ++ [.endOfLine] := by
  induction xs generalizing position with
  | nil => rfl
  | cons x xs ih => simp only [placed, List.map_cons, ih, List.cons_append]

/-- **Nothing behind a token prolongs it** if and only if blanks stand behind it or the next token
does not merge with it. -/
theorem stops_spread_cons_iff : x.token.Stops (spread (y :: xs) behind) ↔
    (x.token.merges y.token = true → y.blanks ≠ []) := by
  rw [spread]
  cases hblanks : y.blanks with
  | nil =>
    rw [List.nil_append, Token.stops_written_iff x.shaped y.shaped]
    simp
  | cons b bs =>
    have hb : isBlank b = true := y.isBlank_of_mem b (by simp [hblanks])
    simp [Token.stops_of_isBlank hb]

section Behind

variable (hbehind : ∀ b ∈ behind, isBlank b = true)

include hbehind

/-- The blanks behind the last token do not prolong it. -/
theorem stops_spread_nil (t : Token) : t.Stops (spread [] behind) := by
  rw [spread]
  cases behind with
  | nil => cases t <;> simp [Token.Stops]
  | cons b bs => exact t.stops_of_isBlank (hbehind b List.mem_cons_self) bs

/-- **Separated tokens are read back**, each at its column. -/
theorem lineTokens_spread (h : Separated xs) (position : Nat) :
    lineTokens position (spread xs behind) = placed position xs behind := by
  induction xs generalizing position with
  | nil => exact lineTokens_of_blank (List.dropWhile_eq_nil_iff.mpr hbehind)
  | cons x xs ih =>
    have hstop : x.token.Stops (spread xs behind) ∧ Separated xs := by
      cases xs with
      | nil => exact ⟨stops_spread_nil hbehind x.token, List.IsChain.nil⟩
      | cons y ys =>
        obtain ⟨hfirst, hrest⟩ := separated_cons_cons.mp h
        exact ⟨stops_spread_cons_iff.mpr hfirst, hrest⟩
    have hlen : position + (spread (x :: xs) behind).length =
        position + x.blanks.length + x.token.written.length + (spread xs behind).length := by
      simp only [spread, List.length_append]
      omega
    have hrest := ih hstop.2 (position + x.blanks.length + x.token.written.length)
    rw [lineTokens] at hrest
    rw [lineTokens, hlen, spread, lexemes_append x.isBlank_of_mem x.shaped hstop.1, placed, ← hrest,
      extent_one, extent_one]
    rfl

end Behind

/-- **No other tokens are read back**: a token that is prolonged is not the one that is read. -/
theorem separated_of_textTokens (h : textTokens (spread xs behind) = xs.map SpacedToken.token) :
    Separated xs := by
  induction xs with
  | nil => exact List.IsChain.nil
  | cons x xs ih =>
    obtain ⟨c, cs, hwritten, hc⟩ := x.shaped.written_eq_cons
    have hhead : ∀ d ∈ (x.token.written ++ spread xs behind).head?, isBlank d = false := by
      simp [hwritten, hc]
    obtain ⟨-, hdrop⟩ := takeWhile_dropWhile_of_stops x.isBlank_of_mem hhead
    have hne : x.token.written ++ spread xs behind ≠ [] := by simp [hwritten]
    rw [spread] at h
    have hfirst : Token.first (x.token.written ++ spread xs behind) = x.token := by
      rw [textTokens_of_ne_nil (by rwa [hdrop]), hdrop] at h
      exact (List.cons.inj h).1
    have hstop : x.token.Stops (spread xs behind) := by
      have := Token.stops_first (x.token.written ++ spread xs behind)
      rwa [hfirst, List.drop_left] at this
    rw [textTokens_append x.isBlank_of_mem x.shaped hstop] at h
    have hrest := ih (List.cons.inj h).2
    cases xs with
    | nil => exact List.IsChain.singleton x
    | cons y ys => exact separated_cons_cons.mpr ⟨stops_spread_cons_iff.mp hstop, hrest⟩

/-! ## Asking for all tokens of a line -/

/-- No line feed is written for the tokens of a line. -/
theorem lineFeed_notMem_spread (hbehind : ∀ b ∈ behind, isBlank b = true) (xs : List SpacedToken) :
    '\n' ∉ spread xs behind := by
  have hblank : ∀ bs : List Char, (∀ b ∈ bs, isBlank b = true) → '\n' ∉ bs := fun bs hbs hmem =>
    absurd (hbs _ hmem) (by decide)
  induction xs with
  | nil => exact hblank behind hbehind
  | cons x xs ih =>
    have htoken : '\n' ∉ x.token.written := fun hmem =>
      x.ne_lineFeed (Token.eq_invalid_of_mem_written Renaming.separates_lineFeed x.shaped hmem)
    simp only [spread, List.mem_append, not_or]
    exact ⟨hblank _ x.isBlank_of_mem, htoken, ih⟩

namespace TokenReader

/-- **All tokens of a line**, asked for one by one until its end, each with the column that the
reader then shows. -/
def askLine (r : TokenReader) : Except Interrupt (List (Token × Nat)) × TokenReader :=
  match _ : r.next with
  | (.error i, r') => (.error i, r')
  | (.ok t, r') =>
    if _ : t = .endOfLine then (.ok [(t, r'.line.column)], r')
    else
      match r'.askLine with
      | (.error i, r'') => (.error i, r'')
      | (.ok ts, r'') => (.ok ((t, r'.line.column) :: ts), r'')
termination_by (r.input.bytes.length, r.line.remaining)
decreasing_by exact next_lt ‹_› ‹_›

/-- **They are the tokens pending** once a line is at hand. -/
theorem askLine_of_ready {r r' : TokenReader} (h : r.ready = (.ok (), r')) :
    r.askLine.1 = .ok r'.line.pending := by
  induction hp : r'.line.pending generalizing r r' with
  | nil => exact absurd hp (LineCursor.pending_ne_nil (not_isFinished_of_ready h))
  | cons x rest ih =>
    have hfinished := not_isFinished_of_ready h
    obtain ⟨rfl, hrest⟩ := List.cons.inj ((pending_take hfinished).symm.trans hp)
    rw [askLine]
    split
    · next heq => rw [next_of_ready h] at heq; cases heq
    · next heq =>
      rw [next_of_ready h] at heq
      cases heq
      split
      · next he =>
        -- nothing is pending behind the end of the line
        have hdone : r'.take.2.line.pending = [] :=
          LineCursor.pending_of_isFinished (by
            rw [take_line, LineCursor.take_phase_of_endOfLine he]
            rfl)
        rw [← hrest, hdone]
      · next he =>
        have hready := ready_of_not_isFinished (r := r'.take.2) (LineCursor.not_isFinished_take he)
        have htail := ih hready hrest
        split
        · next heq => rw [heq] at htail; cases htail
        · next heq =>
          rw [heq] at htail
          cases htail
          rfl

/-- A line that the input holds is at hand once the prompt is written. -/
theorem exists_ready_of_line {r : TokenReader} (hline : r.line.phase.isFinished = true)
    (hprompt : (r.write r.prompt).1 = .ok ()) {text : List Char} (hfeed : '\n' ∉ text)
    (hreturn : text.getLast? ≠ some '\r') {bytes : List UInt8}
    (hbytes : r.input.bytes = Utf8.encode text ++ Input.lineFeed :: bytes) :
    ∃ r', r.ready = (.ok (), r') ∧ r'.line = LineCursor.ofLine text := by
  have hfetch : r.input.fetch = (.line text, ⟨bytes, r.input.failure?⟩) := by
    have := Input.fetch_append_lineFeed (Utf8.lineFeed_notMem_encode hfeed) bytes r.input.failure?
    rwa [← hbytes, ← Input.withoutReturn_decode, Utf8.decode_encode, withoutReturn,
      if_neg hreturn] at this
  have hinput := write_input r.prompt r
  rw [ready, if_pos hline, fetch]
  generalize r.write r.prompt = p at hprompt hinput
  obtain ⟨err | u, r₁⟩ := p
  · cases hprompt
  · dsimp only at hinput ⊢
    rw [receive, hinput, hfetch]
    exact ⟨_, rfl, rfl⟩

/-- **A reader gives the tokens of the line if and only if they are separated.** It then gives each
at its column, and the end of the line at the column behind the last character; otherwise not even
the tokens are those that were written. -/
theorem askLine_spread_iff {r : TokenReader} (hline : r.line.phase.isFinished = true)
    (hprompt : (r.write r.prompt).1 = .ok ()) (xs : List SpacedToken) {behind : List Char}
    (hbehind : ∀ b ∈ behind, isBlank b = true) (hreturn : (spread xs behind).getLast? ≠ some '\r')
    {bytes : List UInt8}
    (hbytes : r.input.bytes = Utf8.encode (spread xs behind) ++ Input.lineFeed :: bytes) :
    ∃ given, r.askLine.1 = .ok given ∧ (given = placed 0 xs behind ↔ Separated xs) ∧
      (given.map Prod.fst = xs.map SpacedToken.token ++ [.endOfLine] ↔ Separated xs) := by
  obtain ⟨r', hready, hr'⟩ :=
    exists_ready_of_line hline hprompt (lineFeed_notMem_spread hbehind xs) hreturn hbytes
  have hpending : r'.line.pending = lineTokens 0 (spread xs behind) := by
    rw [hr']
    rfl
  have hplaced : Separated xs → r'.line.pending = placed 0 xs behind := fun h =>
    hpending.trans (lineTokens_spread hbehind h 0)
  have hseparated : r'.line.pending.map Prod.fst = xs.map SpacedToken.token ++ [.endOfLine] →
      Separated xs := by
    intro h
    rw [hpending, map_fst_lineTokens] at h
    exact separated_of_textTokens (List.append_cancel_right h)
  refine ⟨r'.line.pending, askLine_of_ready hready, ⟨fun h => hseparated ?_, hplaced⟩,
    ⟨hseparated, fun h => ?_⟩⟩
  · rw [h, map_fst_placed]
  · rw [hplaced h, map_fst_placed]

/-- The tokens of the line `12x3 4é.5` are separated, and those that `x12` is written for are
not. -/
theorem askLine_spread_lines :
    let name : SpacedToken := ⟨[], .identifier "x", by simp, ⟨'x', [], rfl, rfl, by simp⟩, by simp⟩
    let twelve : SpacedToken :=
      ⟨[], .number "12", by simp, ⟨'1', ['2'], rfl, rfl, by simp [isNumberPart]⟩, by simp⟩
    let xs : List SpacedToken :=
      [twelve,
        ⟨[], .identifier "x3", by simp, ⟨'x', ['3'], rfl, rfl, by simp [isNamePart]⟩, by simp⟩,
        ⟨[' '], .number "4", by simp [isBlank], ⟨'4', [], rfl, rfl, by simp⟩, by simp⟩,
        ⟨[], .invalid 'é', by simp, ⟨rfl, rfl, rfl, rfl⟩, by decide⟩,
        ⟨[], .invalid '.', by simp, ⟨rfl, rfl, rfl, rfl⟩, by decide⟩,
        ⟨[], .number "5", by simp, ⟨'5', [], rfl, rfl, by simp⟩, by simp⟩]
    let reader (xs : List SpacedToken) : TokenReader :=
      new defaultPrompt ⟨Utf8.encode (spread xs []) ++ Input.lineFeed :: [], none⟩
        (Output.empty none)
    (reader xs).askLine.1 = .ok [(.number "12", 1), (.identifier "x3", 3), (.number "4", 6),
      (.invalid 'é', 7), (.invalid '.', 8), (.number "5", 9), (.endOfLine, 10)] ∧
      ∃ given, (reader [name, twelve]).askLine.1 = .ok given ∧
        given.map Prod.fst ≠ [.identifier "x", .number "12", .endOfLine] := by
  intro name twelve xs reader
  have hbehind : ∀ b ∈ ([] : List Char), isBlank b = true := by simp
  obtain ⟨given, hgiven, hplaced, -⟩ :=
    askLine_spread_iff (r := reader xs) rfl rfl xs hbehind (by decide) rfl
  obtain ⟨given', hgiven', -, htokens⟩ :=
    askLine_spread_iff (r := reader [name, twelve]) rfl rfl [name, twelve] hbehind (by decide) rfl
  refine ⟨?_, given', hgiven', fun h => ?_⟩
  · rw [hgiven, hplaced.mpr (by decide)]
    rfl
  · exact absurd (htokens.mp h) (by decide)

end TokenReader

end StackCalculator
