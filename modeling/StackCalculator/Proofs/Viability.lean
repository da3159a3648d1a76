import StackCalculator.Proofs.Acceptance
import StackCalculator.Proofs.Shapes

/-!
# Viable beginnings of lines

Some tokens are a viable beginning if a line that begins with them can still have a value. A line is
cut short by the first token that makes its beginning hopeless, and by its end only if its tokens
were viable and yet do not make a value.

Every evaluation that goes on can be completed: a text that is waited for is given, a first operand
comes if there is none, and additions use up what is on the stack. No operand is needed behind an
operator, because an operator leaves a value on the stack and only `=`, which then waits for a text,
drops it.

## Main definitions

* `Viable symbols ts`: some line that begins with `ts` has a value
* `Session.CutShort`: a line without a value, and the tokens it leaves
* `Evaluation.CanGoOn`: what holds as long as an evaluation goes on

## Main results

* `Evaluation.exists_completion`: an evaluation that goes on can be completed
* `viable_iff`: tokens are viable if they are accepted one and all
* `lineValue_cutShort_iff`: a line is cut short by the first token that is not viable
-/

namespace StackCalculator

/-- **Some tokens are a viable beginning** if a line that begins with them has a value, the names
having the values of `symbols`. -/
def Viable (symbols : SymbolTable) (ts : List Token) : Prop :=
  ∃ (s : Session) (r : TokenReader) (more : List Token) (x : Float),
    s.symbols = symbols ∧ s.reader.ready = (.ok (), r) ∧ r.line.tokens = ts ++ more ∧
      s.lineValue.1 = .ok x

namespace Evaluation

/-! ## Completing an evaluation -/

/-- **What holds as long as an evaluation goes on**: without a value on the stack, a text or an
operand may come. -/
def CanGoOn (e : Evaluation) : Prop :=
  e.stack = [] → e.assigning = true ∨ e.afterOperator = false

theorem canGoOn_start (symbols : SymbolTable) : (start symbols).CanGoOn :=
  fun _ => .inr rfl

/-- Accepting a token goes on. -/
theorem Accepts.canGoOn {e e' : Evaluation} {t : Token} (h : Accepts e t e') : e'.CanGoOn := by
  intro hstack
  cases h with
  | target | number | identifier | negate | binary => cases hstack
  | assign => exact .inl rfl

theorem canGoOn_of_advance? {e e' : Evaluation} {ts : List Token} (he : e.CanGoOn)
    (h : e.advance? ts = some e') : e'.CanGoOn := by
  induction ts generalizing e with
  | nil =>
    obtain rfl : e = e' := Option.some.inj h
    exact he
  | cons t ts ih =>
    obtain ⟨e₁, h₁, h₂⟩ := Option.bind_eq_some_iff.mp h
    exact ih (accepts_of_accept? h₁).canGoOn h₂

/-- The number that a completion puts where a text or an operand is missing. -/
def filler : Token := .number "0"

theorem shaped_filler : filler.Shaped :=
  ⟨'0', [], rfl, rfl, fun _ h => absurd h List.not_mem_nil⟩

theorem exists_filler_value : ∃ x, Literal.read? "0" = some x :=
  Option.isSome_iff_exists.mp (by decide)

/-- **A completion of an evaluation**: tokens that lead it to a single value. -/
def CompletedBy (e : Evaluation) (more : List Token) : Prop :=
  (∀ t ∈ more, t.Shaped) ∧
    ∃ e' x, e.advance? more = some e' ∧ e'.assigning = false ∧ e'.stack = [x]

theorem CompletedBy.cons {e e' : Evaluation} {t : Token} {more : List Token} (ht : t.Shaped)
    (h : Accepts e t e') (hmore : e'.CompletedBy more) : e.CompletedBy (t :: more) := by
  obtain ⟨hshaped, e'', x, hadvance, hend⟩ := hmore
  refine ⟨List.forall_mem_cons.mpr ⟨ht, hshaped⟩, e'', x, ?_, hend⟩
  rw [advance?_cons, h.accept?, Option.bind_some, hadvance]

/-- Additions use up what is on the stack. -/
theorem completedBy_additions {n : Nat} : ∀ {e : Evaluation}, e.assigning = false →
    e.stack.length = n + 1 → e.CompletedBy (List.replicate n (.operator (.binary .add))) := by
  induction n with
  | zero =>
    intro e ha hlen
    obtain ⟨x, hx⟩ := List.length_eq_one_iff.mp hlen
    exact ⟨by simp, e, x, rfl, ha, hx⟩
  | succ n ih =>
    intro e ha hlen
    rcases hs : e.stack with - | ⟨right, - | ⟨left, stack⟩⟩
    · simp [hs] at hlen
    · simp [hs] at hlen
    · have hlen' : (e.replaced (left + right) stack).stack.length = n + 1 := by
        simpa [hs, replaced] using hlen
      exact .cons trivial (.binary ha hs rfl) (ih ha hlen')

/-- **An evaluation that goes on can be completed.** -/
theorem exists_completion {e : Evaluation} (h : e.CanGoOn) : ∃ more, e.CompletedBy more := by
  obtain ⟨x, hx⟩ := exists_filler_value
  cases ha : e.assigning with
  | true =>
    have htext : (filler : Token).text? = some "0" := rfl
    exact ⟨_, .cons shaped_filler (.target ha htext hx) (completedBy_additions rfl rfl)⟩
  | false =>
    cases hs : e.stack with
    | nil =>
      have ho : e.afterOperator = false := (h hs).resolve_left (by simp [ha])
      have hlen : (e.push x).stack.length = 0 + 1 := by simp [push, hs]
      exact ⟨_, .cons shaped_filler (.number ha ho hx) (completedBy_additions ha hlen)⟩
    | cons y stack => exact ⟨_, completedBy_additions ha (by rw [hs]; rfl)⟩

end Evaluation

/-! ## Viable tokens -/

/-- Tokens of their shapes are the tokens of some line at hand. -/
theorem exists_session_of_shaped (symbols : SymbolTable) {ts : List Token}
    (h : ∀ t ∈ ts, t.Shaped) :
    ∃ (s : Session) (r : TokenReader), s.symbols = symbols ∧ s.reader.ready = (.ok (), r) ∧
      r.line.tokens = ts := by
  refine ⟨⟨.holding (spaced ts), symbols⟩, .holding (spaced ts), rfl,
    TokenReader.ready_holding _, ?_⟩
  rw [LineCursor.tokens_of_not_isFinished rfl, map_token_lexemes]
  exact textTokens_spaced h

/-- **Tokens are viable if they are accepted one and all.** -/
theorem viable_iff {symbols : SymbolTable} {ts : List Token} (h : ∀ t ∈ ts, t.Shaped) :
    Viable symbols ts ↔ ∃ e, (Evaluation.start symbols).advance? ts = some e := by
  constructor
  · -- a line with a value accepts all of its tokens, and so the first of them
    rintro ⟨s, r, more, x, rfl, hready, htokens, hx⟩
    obtain ⟨e, hadvance, -⟩ := (Session.lineValue_eq_ok_iff hready).mp ⟨hx, rfl⟩
    rw [htokens, Evaluation.advance?_append] at hadvance
    obtain ⟨e', he', -⟩ := Option.bind_eq_some_iff.mp hadvance
    exact ⟨e', he'⟩
  · -- the completed tokens are written out as a line
    rintro ⟨e, he⟩
    obtain ⟨more, hmore, e', x, hadvance, ha, hs⟩ := Evaluation.exists_completion
      (Evaluation.canGoOn_of_advance? (Evaluation.canGoOn_start symbols) he)
    have hshaped : ∀ t ∈ ts ++ more, t.Shaped :=
      fun t ht => (List.mem_append.mp ht).elim (h t) (hmore t)
    obtain ⟨s, r, rfl, hready, htokens⟩ := exists_session_of_shaped symbols hshaped
    refine ⟨s, r, more, x, rfl, hready, htokens, ?_⟩
    refine ((Session.lineValue_eq_ok_iff hready).mpr ⟨e', ?_, ha, hs, rfl⟩).1
    rw [htokens, Evaluation.advance?_append, he, Option.bind_some, hadvance]

theorem shaped_of_mem_tokens {l : LineCursor} (h : l.phase.isFinished = false) :
    ∀ t ∈ l.tokens, t.Shaped := by
  rw [LineCursor.tokens_of_not_isFinished h, map_token_lexemes]
  exact shaped_of_mem_textTokens _

/-- Each of the pending tokens has its shape, unless it is the end of the line. -/
theorem shaped_of_pending {l : LineCursor} (h : l.phase.isFinished = false)
    {before behind : List (Token × Nat)} {t : Token} {column : Nat}
    (hp : l.pending = before ++ (t, column) :: behind) (ht : t ≠ .endOfLine) : t.Shaped := by
  obtain ⟨more, htokens⟩ := LineCursor.split_of_ne_endOfLine h hp ht
  exact shaped_of_mem_tokens h t (by rw [htokens]; simp)

/-! ## Lines that are cut short -/

/-- **A line is cut short**: it has no value, and these tokens of it are left. -/
def Session.CutShort (s : Session) (behind : List (Token × Nat)) : Prop :=
  (∃ i, s.lineValue.1 = .error i) ∧ s.lineValue.2.reader.line.pending = behind

/-- The fault of a line that is cut short by its end. -/
def endFault (ts : List Token) : Fault :=
  if ts.getLast? = some (.operator .assign) then .expectedVariableAfterAssign
  else .malformedExpression

namespace Evaluation

/-- A token that cuts a line short is reported with its own column. -/
theorem Refuses.reported {e : Evaluation} {t : Token} {column : Nat} {i : Interrupt}
    (h : Refuses e column t i) :
    (∃ fault, i = .failed ⟨fault, column⟩) ∨ (∃ text, i = .fatal (.invalidNumber text column)) ∨
      i = .ended .exit := by
  cases h with
  | invalidTarget | invalidNumber => exact .inr (.inl ⟨_, rfl⟩)
  | exit => exact .inr (.inr rfl)
  | _ => exact .inl ⟨_, rfl⟩

/-- What the end of a line reports if it cuts the line short. -/
theorem Refuses.eq_of_endOfLine {e : Evaluation} {ts : List Token} {symbols : SymbolTable}
    {column : Nat} {i : Interrupt} (h : Refuses e column .endOfLine i)
    (he : (start symbols).advance? ts = some e) : i = .failed ⟨endFault ts, column⟩ := by
  have hassigning := assigning_of_advance? rfl he
  cases h with
  | missingText ha => rw [endFault, if_pos (hassigning.mp ha)]
  | invalidTarget ha ht => cases ht
  | malformedExpression ha =>
    rw [endFault, if_neg fun hlast => absurd (hassigning.mpr hlast) (by simp [ha])]

end Evaluation

namespace Session

open Evaluation

/-- A line is cut short exactly where it is settled, if that is at a token that interrupts it. -/
theorem cutShort_iff_settles {s : Session} {r : TokenReader} (h : s.reader.ready = (.ok (), r))
    {before behind : List (Token × Nat)} {t : Token} {column : Nat}
    (hline : r.line.pending = before ++ (t, column) :: behind) :
    s.CutShort behind ↔
      ∃ e i, Settles (start s.symbols) r.line.pending before e t column behind ∧
        e.feed t column = .stopped i ∧ s.lineValue.1 = .error i := by
  obtain ⟨accepted, e', t', column', behind', hsettles, hpending, hverdict⟩ := lineValue_settles h
  constructor
  · rintro ⟨⟨i, hi⟩, rfl⟩
    rw [hpending] at hline ⊢
    obtain ⟨rfl, htoken⟩ := List.append_inj' (hsettles.line_eq.symm.trans hline) rfl
    obtain ⟨rfl, rfl⟩ := Prod.mk.inj (List.head_eq_of_cons_eq htoken)
    rw [hi] at hverdict
    exact ⟨e', i, hsettles, (Progress.eq_stopped_of_verdict? hverdict).1, hi⟩
  · rintro ⟨e, i, hsettles', -, hi⟩
    exact ⟨⟨i, hi⟩, (lineValue_of_settles h hsettles').1⟩

/-- A line that is settled at a token is cut short there, unless it has a value. -/
theorem cutShort_of_settles {s : Session} {r : TokenReader} (h : s.reader.ready = (.ok (), r))
    {before behind : List (Token × Nat)} {e : Evaluation} {t : Token} {column : Nat}
    (hsettles : Settles (start s.symbols) r.line.pending before e t column behind)
    (hvalue : t = .endOfLine → ¬ ∃ x, s.lineValue.1 = .ok x) : s.CutShort behind := by
  obtain ⟨hpending, hverdict⟩ := lineValue_of_settles h hsettles
  refine ⟨?_, hpending⟩
  cases hvalue' : s.lineValue.1 with
  | error i => exact ⟨i, rfl⟩
  | ok x =>
    rw [hvalue'] at hverdict
    obtain ⟨remark, hdone⟩ := Progress.exists_done_of_verdict? hverdict
    exact absurd ⟨x, hvalue'⟩ (hvalue (eq_endOfLine_of_done hdone))

/-- **A line is cut short by the first token that is not viable**, and by its end only if its tokens
are viable and yet make no value. What is reported is reported with the column of that token. -/
theorem lineValue_cutShort_iff {s : Session} {r : TokenReader} (h : s.reader.ready = (.ok (), r)) :
    (∀ i, s.lineValue.1 = .error i → ∃ before t column behind,
      r.line.pending = before ++ (t, column) :: behind ∧ s.CutShort behind) ∧
    ∀ before t column behind, r.line.pending = before ++ (t, column) :: behind →
      (t ≠ .endOfLine → (s.CutShort behind ↔
        Viable s.symbols (before.map Prod.fst) ∧ ¬ Viable s.symbols (before.map Prod.fst ++ [t]))) ∧
      (t = .endOfLine → (s.CutShort behind ↔
        Viable s.symbols (before.map Prod.fst) ∧ ¬ ∃ x, s.lineValue.1 = .ok x)) ∧
      (s.CutShort behind → ∃ i, s.lineValue.1 = .error i ∧
        ((∃ fault, i = .failed ⟨fault, column⟩) ∨
          (∃ text, i = .fatal (.invalidNumber text column)) ∨ i = .ended .exit) ∧
        (t = .endOfLine → i = .failed ⟨endFault (before.map Prod.fst), column⟩)) := by
  have hr := TokenReader.not_isFinished_of_ready h
  have hshaped := shaped_of_mem_tokens hr
  refine ⟨?_, fun before t column behind hline => ⟨?_, ?_, ?_⟩⟩
  · intro i hi
    obtain ⟨accepted, e', t, column, behind, hsettles, hpending, -⟩ := lineValue_settles h
    exact ⟨accepted, t, column, behind, hsettles.line_eq, ⟨i, hi⟩, hpending⟩
  · -- a token before the end, where viable and accepted mean the same
    intro ht
    obtain ⟨more, htokens⟩ := LineCursor.split_of_ne_endOfLine hr hline ht
    have hall : ∀ u ∈ before.map Prod.fst ++ [t], u.Shaped :=
      fun u hu => hshaped u (htokens ▸ List.mem_append_left _ hu)
    have hbefore : ∀ u ∈ before.map Prod.fst, u.Shaped :=
      fun u hu => hall u (List.mem_append_left _ hu)
    rw [viable_iff hall, viable_iff hbefore]
    constructor
    · intro hcut
      obtain ⟨e, i, hsettles, -⟩ := (cutShort_iff_settles h hline).mp hcut
      refine ⟨⟨e, hsettles.advance_eq⟩, ?_⟩
      rintro ⟨e', he'⟩
      rw [advance?_append, hsettles.advance_eq, Option.bind_some, advance?_cons,
        hsettles.accept_eq] at he'
      cases he'
    · rintro ⟨⟨e, he⟩, hnone⟩
      refine cutShort_of_settles h ⟨hline, he, ?_⟩ fun h => absurd h ht
      by_contra haccept
      obtain ⟨e', he'⟩ := Option.ne_none_iff_exists'.mp haccept
      refine hnone ⟨e', ?_⟩
      rw [advance?_append, he, Option.bind_some, advance?_cons, he']
      rfl
  · -- the end of the line, which is never accepted
    rintro rfl
    obtain ⟨rfl, htokens⟩ := LineCursor.split_endOfLine hr hline
    have hbefore : ∀ u ∈ before.map Prod.fst, u.Shaped := fun u hu => hshaped u (htokens ▸ hu)
    rw [viable_iff hbefore]
    constructor
    · intro hcut
      obtain ⟨e, i, hsettles, -, hi⟩ := (cutShort_iff_settles h hline).mp hcut
      exact ⟨⟨e, hsettles.advance_eq⟩, fun ⟨x, hx⟩ => by rw [hi] at hx; cases hx⟩
    · rintro ⟨⟨e, he⟩, hvalue⟩
      exact cutShort_of_settles h (hline ▸ Settles.of_endOfLine he) fun _ => hvalue
  · intro hcut
    obtain ⟨e, i, hsettles, hfeed, hi⟩ := (cutShort_iff_settles h hline).mp hcut
    refine ⟨i, hi, (refuses_of_feed hfeed).reported, ?_⟩
    rintro rfl
    exact (refuses_of_feed hfeed).eq_of_endOfLine hsettles.advance_eq

/-- The line `1 &` is cut short at its second token, as `1` is a viable beginning and `1 &` is
not. -/
theorem cutShort_badToken :
    let s : Session := ⟨.holding "1 &".toList, ∅⟩
    s.reader.ready = (.ok (), s.reader) ∧
      (s.CutShort [(.endOfLine, 4)] ↔
        Viable ∅ [.number "1"] ∧ ¬ Viable ∅ [.number "1", .invalid '&']) := by
  intro s
  have hpending : s.reader.line.pending =
      [(.number "1", 1)] ++ (.invalid '&', 3) :: [(.endOfLine, 4)] := by
    decide +kernel
  refine ⟨TokenReader.ready_holding _, ?_⟩
  exact ((lineValue_cutShort_iff (TokenReader.ready_holding _)).2 _ _ _ _ hpending).1 (by decide)

end Session

end StackCalculator
