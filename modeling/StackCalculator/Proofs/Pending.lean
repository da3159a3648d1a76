import Mathlib.Data.List.DropRight
import StackCalculator.TokenReader

/-!
# Pending tokens

The tokens that a line still has to give, each with its column, are those of the text behind the
cursor, cut in one pass, and the end of the line after them. Taking a token takes the first of them,
putting a token back puts it in front of them again, and dropping the rest leaves none.

## Main definitions

* `lineTokens position cs`: the tokens of a text with their columns, the end of the line last
* `LineCursor.pending`: the tokens that a line still has to give
* `LineCursor.tokens`: those of them that come before the end of the line
* `LineCursor.consumed`: the tokens taken between two states of a line
* `TokenReader.holding`: a reader with a text at hand

## Main results

* `LineCursor.pending_eq_cons`: what taking a token does to the pending tokens
* `LineCursor.pending_putBack`: what putting a token back does to them
* `TokenReader.ready_ok_cases`: a line at hand is the old one, unfinished, or a fetched one,
  untouched
-/

namespace StackCalculator

/-! ## The tokens of a text -/

theorem extent_one (cs : List Char) : extent (fun _ => 1) cs = cs.length := by
  have h : ∀ n, cs.foldl (fun n _ => n + 1) n = n + cs.length := by
    induction cs with
    | nil => exact fun n => rfl
    | cons c cs ih =>
      intro n
      rw [List.foldl_cons, ih, List.length_cons]
      omega
  rw [extent, h, Nat.zero_add]

theorem drop_length_takeWhile (p : Char → Bool) (cs : List Char) :
    cs.drop (cs.takeWhile p).length = cs.dropWhile p := by
  have hcut := List.prefix_iff_eq_append.mp (List.takeWhile_prefix p (l := cs))
  exact List.append_cancel_left (hcut.trans List.takeWhile_append_dropWhile.symm)

theorem length_takeWhile_of_dropWhile_eq_nil {p : Char → Bool} {cs : List Char}
    (h : cs.dropWhile p = []) : (cs.takeWhile p).length = cs.length := by
  have hcs := List.takeWhile_append_dropWhile (p := p) (l := cs)
  rw [h, List.append_nil] at hcs
  rw [hcs]

/-- The lexemes of a text whose characters all have width one. -/
theorem lexemes_one (position : Nat) (cs : List Char) :
    lexemes (fun _ => 1) position cs =
      if cs.dropWhile isBlank = [] then []
      else
        let token := Token.first (cs.dropWhile isBlank)
        let begin := position + (cs.takeWhile isBlank).length
        let stop := begin + token.written.length
        ⟨token, begin, stop⟩ ::
          lexemes (fun _ => 1) stop ((cs.dropWhile isBlank).drop token.written.length) := by
  rw [lexemes]
  simp only [extent_one, dite_eq_ite]

/-- **The tokens of a text with their columns**, the end of the line last. The text begins at a
position of its line. -/
def lineTokens (position : Nat) (cs : List Char) : List (Token × Nat) :=
  (lexemes (fun _ => 1) position cs).map (fun x => (x.token, x.start + 1))
    ++ [(.endOfLine, position + cs.length + 1)]

theorem lineTokens_of_blank {position : Nat} {cs : List Char} (h : cs.dropWhile isBlank = []) :
    lineTokens position cs = [(.endOfLine, position + cs.length + 1)] := by
  rw [lineTokens, lexemes_one, if_pos h]
  rfl

/-- A text that is not blank begins with a token, and goes on behind it. -/
theorem lineTokens_of_ne_nil {position : Nat} {cs : List Char} (h : cs.dropWhile isBlank ≠ []) :
    let token := Token.first (cs.dropWhile isBlank)
    let begin := position + (cs.takeWhile isBlank).length
    lineTokens position cs = (token, begin + 1) ::
      lineTokens (begin + token.written.length)
        ((cs.dropWhile isBlank).drop token.written.length) := by
  intro token begin
  have hcs : cs.length = (cs.takeWhile isBlank).length + (cs.dropWhile isBlank).length := by
    rw [← List.length_append, List.takeWhile_append_dropWhile]
  have htoken : token.written.length ≤ (cs.dropWhile isBlank).length :=
    Token.written_first_length_le _
  have hend : begin + token.written.length +
      ((cs.dropWhile isBlank).drop token.written.length).length = position + cs.length := by
    rw [List.length_drop]
    omega
  rw [lineTokens, lexemes_one, if_neg h, lineTokens, hend]
  rfl

/-- The blanks before a text only move it. -/
theorem lineTokens_dropWhile (position : Nat) (cs : List Char) :
    lineTokens position cs =
      lineTokens (position + (cs.takeWhile isBlank).length) (cs.dropWhile isBlank) := by
  have hcs : cs.length = (cs.takeWhile isBlank).length + (cs.dropWhile isBlank).length := by
    rw [← List.length_append, List.takeWhile_append_dropWhile]
  have hnone : (cs.dropWhile isBlank).takeWhile isBlank = [] := by
    have := congrArg List.length
      (List.takeWhile_append_dropWhile (p := isBlank) (l := cs.dropWhile isBlank))
    rw [List.dropWhile_idempotent, List.length_append] at this
    exact List.length_eq_zero_iff.mp (by omega)
  by_cases h : cs.dropWhile isBlank = []
  · rw [lineTokens_of_blank h, h, lineTokens_of_blank rfl, hcs, h, ← Nat.add_assoc]
  · have h' : (cs.dropWhile isBlank).dropWhile isBlank ≠ [] := by
      rwa [List.dropWhile_idempotent]
    rw [lineTokens_of_ne_nil h, lineTokens_of_ne_nil h', List.dropWhile_idempotent, hnone]
    rfl

/-- Only the last of the tokens of a text is the end of the line. -/
theorem ne_endOfLine_of_mem_lexemes (position : Nat) (cs : List Char) :
    ∀ x ∈ lexemes (fun _ => 1) position cs, x.token ≠ .endOfLine := by
  fun_induction lexemes (fun _ => 1) position cs with
  | case1 => simp
  | case2 position cs rest h token begin stop ih =>
    intro x hx
    rcases List.mem_cons.mp hx with rfl | hx
    · exact fun he => h (Token.first_eq_endOfLine_iff.mp he)
    · exact ih x hx

/-- A split of a list at an element that may be the last one. -/
theorem concat_eq_append_cons_iff {α : Type} {xs before behind : List α} {x y : α} :
    xs ++ [x] = before ++ y :: behind ↔
      behind = [] ∧ xs = before ∧ x = y ∨
        ∃ more, behind = more ++ [x] ∧ xs = before ++ y :: more := by
  constructor
  · intro h
    rcases List.eq_nil_or_concat behind with rfl | ⟨more, u, rfl⟩
    · exact .inl ⟨rfl, List.append_singleton_inj.mp h⟩
    · rw [List.concat_eq_append, ← List.cons_append, ← List.append_assoc] at h
      obtain ⟨rfl, rfl⟩ := List.append_singleton_inj.mp h
      exact .inr ⟨more, List.concat_eq_append, rfl⟩
  · rintro (⟨rfl, rfl, rfl⟩ | ⟨more, rfl, rfl⟩)
    · rfl
    · rw [List.append_assoc, List.cons_append]

namespace LineCursor

/-! ## The moves of a cursor -/

/-- **The tokens that a line still has to give**, with their columns. -/
def pending (l : LineCursor) : List (Token × Nat) :=
  if l.phase.isFinished then [] else lineTokens l.cursor l.rest

theorem pending_of_isFinished {l : LineCursor} (h : l.phase.isFinished = true) : l.pending = [] :=
  if_pos h

theorem pending_of_not_isFinished {l : LineCursor} (h : l.phase.isFinished = false) :
    l.pending = lineTokens l.cursor l.rest := by
  rw [pending, h]
  rfl

@[simp]
theorem pending_dropRest (l : LineCursor) : l.dropRest.pending = [] := rfl

theorem upcoming_eq_endOfLine_iff {l : LineCursor} :
    l.upcoming = .endOfLine ↔ l.rest.dropWhile isBlank = [] :=
  Token.first_eq_endOfLine_iff

/-- The text behind a token that is taken. -/
theorem rest_take (l : LineCursor) :
    l.take.2.rest = (l.rest.dropWhile isBlank).drop l.upcoming.written.length := by
  rw [← drop_length_takeWhile, List.drop_drop]
  simp only [rest, take_text, take_cursor, upcomingStart, List.drop_drop]
  congr 1
  omega

/-- What is left behind the blanks before the next token. -/
theorem drop_upcomingStart (l : LineCursor) :
    l.text.drop l.upcomingStart = l.rest.dropWhile isBlank := by
  rw [upcomingStart, ← List.drop_drop, ← drop_length_takeWhile]
  rfl

/-- The cursor stays within the line when a token is taken. -/
theorem cursor_take_le {l : LineCursor} (h : l.cursor ≤ l.text.length) :
    l.take.2.cursor ≤ l.take.2.text.length := by
  have hrest := l.length_rest
  have htoken := Token.written_first_length_le (l.rest.dropWhile isBlank)
  rw [remaining] at hrest
  rw [take_cursor, take_text, upcomingStart, upcoming]
  omega

/-- A token other than the end of the line leaves the line unfinished. -/
theorem not_isFinished_take {l : LineCursor} (h : l.upcoming ≠ .endOfLine) :
    l.take.2.phase.isFinished = false := by
  simp only [take, if_neg h]
  rfl

/-- **Taking a token takes the first of the pending tokens.** -/
theorem pending_eq_cons {l : LineCursor} (h : l.phase.isFinished = false) :
    l.pending = (l.upcoming, l.upcomingStart + 1) :: l.take.2.pending := by
  rw [pending_of_not_isFinished h]
  by_cases hb : l.rest.dropWhile isBlank = []
  · -- only blanks are left, and taking the end of the line finishes it
    have hup : l.upcoming = .endOfLine := upcoming_eq_endOfLine_iff.mpr hb
    have hdone : l.take.2.pending = [] := by
      refine pending_of_isFinished ?_
      rw [take_phase_of_endOfLine hup]
      rfl
    rw [lineTokens_of_blank hb, hdone, hup, upcomingStart, length_takeWhile_of_dropWhile_eq_nil hb]
  · -- the cursor moves behind a token, and the text behind it is cut as before
    have hup : l.upcoming ≠ .endOfLine := fun he => hb (upcoming_eq_endOfLine_iff.mp he)
    rw [lineTokens_of_ne_nil hb, pending_of_not_isFinished (not_isFinished_take hup), rest_take,
      take_cursor]
    rfl

/-- **The tokens that a line still has to give before its end.** -/
def tokens (l : LineCursor) : List Token :=
  (l.pending.map Prod.fst).dropLast

theorem tokens_of_not_isFinished {l : LineCursor} (h : l.phase.isFinished = false) :
    l.tokens = (lexemes (fun _ => 1) l.cursor l.rest).map Lexeme.token := by
  rw [tokens, pending_of_not_isFinished h, lineTokens, List.map_append, List.map_cons, List.map_nil,
    List.dropLast_concat, List.map_map]
  rfl

/-- The end of the line comes behind the other tokens, and only there. -/
theorem exists_pending_eq {l : LineCursor} (h : l.phase.isFinished = false) :
    ∃ before column, l.pending = before ++ [(.endOfLine, column)] ∧
      before.map Prod.fst = l.tokens := by
  rw [tokens_of_not_isFinished h, pending_of_not_isFinished h]
  refine ⟨_, _, rfl, ?_⟩
  rw [List.map_map]
  rfl

theorem map_fst_pending {l : LineCursor} (h : l.phase.isFinished = false) :
    l.pending.map Prod.fst = l.tokens ++ [.endOfLine] := by
  obtain ⟨before, column, hpending, htokens⟩ := exists_pending_eq h
  rw [hpending, List.map_append, htokens]
  rfl

theorem endOfLine_notMem_tokens {l : LineCursor} (h : l.phase.isFinished = false) :
    .endOfLine ∉ l.tokens := by
  rw [tokens_of_not_isFinished h]
  intro hmem
  obtain ⟨x, hx, he⟩ := List.mem_map.mp hmem
  exact ne_endOfLine_of_mem_lexemes _ _ x hx he

/-- The end of the line is the last of the pending tokens. -/
theorem split_endOfLine {l : LineCursor} (h : l.phase.isFinished = false)
    {before behind : List (Token × Nat)} {column : Nat}
    (hp : l.pending = before ++ (.endOfLine, column) :: behind) :
    behind = [] ∧ l.tokens = before.map Prod.fst := by
  obtain ⟨before', column', hp', htokens⟩ := exists_pending_eq h
  have hnone := endOfLine_notMem_tokens h
  rw [← htokens] at hnone ⊢
  rcases concat_eq_append_cons_iff.mp (hp'.symm.trans hp) with ⟨rfl, rfl, -⟩ | ⟨more, rfl, rfl⟩
  · exact ⟨rfl, rfl⟩
  · -- were there more behind the end, the end would stand among the tokens before it
    exact absurd (by simp) hnone

/-- Any other of the pending tokens is one of those before the end of the line. -/
theorem split_of_ne_endOfLine {l : LineCursor} (h : l.phase.isFinished = false)
    {before behind : List (Token × Nat)} {t : Token} {column : Nat}
    (hp : l.pending = before ++ (t, column) :: behind) (ht : t ≠ .endOfLine) :
    ∃ more, l.tokens = (before.map Prod.fst ++ [t]) ++ more := by
  obtain ⟨before', column', hp', htokens⟩ := exists_pending_eq h
  rw [← htokens]
  rcases concat_eq_append_cons_iff.mp (hp'.symm.trans hp) with ⟨-, -, hlast⟩ | ⟨more, -, rfl⟩
  · exact absurd (congrArg Prod.fst hlast).symm ht
  · exact ⟨more.map Prod.fst, by simp⟩

/-- The tokens before any of the pending ones begin the line. -/
theorem isPrefix_tokens {l : LineCursor} (h : l.phase.isFinished = false)
    {before behind : List (Token × Nat)} {t : Token} {column : Nat}
    (hp : l.pending = before ++ (t, column) :: behind) : before.map Prod.fst <+: l.tokens := by
  by_cases ht : t = .endOfLine
  · subst ht
    exact (split_endOfLine h hp).2 ▸ List.prefix_rfl
  · obtain ⟨more, htokens⟩ := split_of_ne_endOfLine h hp ht
    exact ⟨t :: more, by rw [htokens, List.append_assoc]; rfl⟩

theorem pending_ne_nil {l : LineCursor} (h : l.phase.isFinished = false) : l.pending ≠ [] := by
  rw [pending_eq_cons h]
  exact List.cons_ne_nil _ _

/-- A line that has nothing pending is finished. -/
theorem pending_eq_nil_iff {l : LineCursor} : l.pending = [] ↔ l.phase.isFinished = true := by
  refine ⟨fun h => ?_, pending_of_isFinished⟩
  cases hf : l.phase.isFinished with
  | true => rfl
  | false => exact absurd h (pending_ne_nil hf)

theorem take_phase_canPutBack (l : LineCursor) : l.take.2.phase.canPutBack = true := by
  simp only [take]
  split <;> rfl

/-- **Putting a token back puts it in front of the pending tokens again.** -/
theorem pending_putBack {l : LineCursor} (h : l.phase.isFinished = false) :
    l.take.2.putBack.pending = l.pending := by
  have hback : l.take.2.putBack = ⟨l.text, l.upcomingStart, l.upcomingStart, .waiting⟩ := by
    rw [putBack, if_pos l.take_phase_canPutBack]
    rfl
  rw [hback, pending_of_not_isFinished h]
  -- the cursor comes back behind the blanks before the token, which do not count
  exact (congrArg (lineTokens l.upcomingStart) l.drop_upcomingStart).trans
    (lineTokens_dropWhile _ _).symm

/-- **The tokens taken between two states of a line.** -/
def consumed (l l' : LineCursor) : List Token :=
  (l.pending.take (l.pending.length - l'.pending.length)).map Prod.fst

theorem consumed_of_pending_eq {l l' : LineCursor} {taken : List (Token × Nat)}
    (h : l.pending = taken ++ l'.pending) : l.consumed l' = taken.map Prod.fst := by
  rw [consumed, h, List.length_append, Nat.add_sub_cancel, List.take_left]

end LineCursor

namespace TokenReader

/-! ## A line at hand -/

/-- The tokens that the line of a reader still has to give. -/
theorem pending_take {r : TokenReader} (h : r.line.phase.isFinished = false) :
    r.line.pending = (r.take.1, r.take.2.line.column) :: r.take.2.line.pending :=
  LineCursor.pending_eq_cons h

/-- Behind a token other than its end, the line is still at hand, whatever is remarked. -/
theorem not_isFinished_noteAny_take {r : TokenReader} (h : r.line.upcoming ≠ .endOfLine)
    (remark? : Option Remark) : (r.take.2.noteAny remark?).line.phase.isFinished = false := by
  rw [noteAny_line]
  exact LineCursor.not_isFinished_take h

/-- **A line at hand** is the old one, unfinished, or one that was fetched and is untouched. -/
theorem ready_ok_cases {r r' : TokenReader} (h : r.ready = (.ok (), r')) :
    (r.line.phase.isFinished = false ∧ r' = r) ∨
      (r.line.phase.isFinished = true ∧ ∃ text, r'.line = LineCursor.ofLine text) := by
  rw [ready] at h
  split at h
  · next hf =>
    refine .inr ⟨hf, ?_⟩
    rw [fetch] at h
    split at h
    · next r₁ hw =>
      rw [receive] at h
      split at h
      · next text input hi => exact ⟨text, (congrArg (·.2.line) h).symm⟩
      · cases h
      · cases h
    · cases h
  · next hf => exact .inl ⟨eq_false_of_ne_true hf, (congrArg Prod.snd h).symm⟩

/-- A reader with a text at hand, and nothing behind it. -/
def holding (text : List Char) : TokenReader :=
  { new "" ⟨[], none⟩ (Output.empty none) with line := LineCursor.ofLine text }

theorem ready_holding (text : List Char) : (holding text).ready = (.ok (), holding text) := rfl

/-- A line at hand is not finished. -/
theorem not_isFinished_of_ready {r r' : TokenReader} (h : r.ready = (.ok (), r')) :
    r'.line.phase.isFinished = false := by
  rcases ready_ok_cases h with ⟨hf, rfl⟩ | ⟨-, text, ht⟩
  · exact hf
  · rw [ht]
    rfl

end TokenReader

end StackCalculator
