import StackCalculator.Proofs.Items
import StackCalculator.Proofs.Tiling

/-!
# Operands behind operators

A line rejects an operand behind an operator. What counts as behind is settled by a flag: operators
other than `=` raise it, operands lower it, and assignments leave it as it is, both the `=` and the
text that it takes with it. So the flag tells whether the latest token that belongs to no assignment
is such an operator. Where no assignment stands right before an operand, this is the token right
before it. Behind an assignment it is not: in `1 2 + = 5 3 +` the operand `3` is rejected, although
a number stands right before it.

## Main definitions

* `Token.isOperand`, `Token.isArithmetic`: the tokens that lower the flag and that raise it
* `outsideAssignments ts`: the tokens that belong to no assignment
* `EndsInOperator ts`: the latest of them is an operator other than `=`

## Main results

* `Evaluation.afterOperator_iff`: what the flag tells
* `LineCursor.split_unique`: a column belongs to one token only
* `Session.rejects_operand_iff`: which operands are rejected for the place at which they stand
-/

namespace StackCalculator

namespace Token

/-- A number or a name. -/
def isOperand : Token → Bool
  | .number _ | .identifier _ => true
  | _ => false

/-- An operator other than `=`. -/
def isArithmetic : Token → Bool
  | .operator .negate | .operator (.binary _) => true
  | _ => false

end Token

/-! ## Tokens outside assignments -/

/-- **The tokens that belong to no assignment**, which is an `=` together with the token behind
it. -/
def outsideAssignments : List Token → List Token
  | [] => []
  | [.operator .assign] => []
  | .operator .assign :: _ :: ts => outsideAssignments ts
  | t :: ts => t :: outsideAssignments ts

theorem outsideAssignments_cons {t : Token} (h : t ≠ .operator .assign) (ts : List Token) :
    outsideAssignments (t :: ts) = t :: outsideAssignments ts := by
  rcases t with text | text | (op | _ | _) | c | _
  case operator.assign => exact absurd rfl h
  all_goals simp [outsideAssignments]

theorem outsideAssignments_assign (literal : Token) (ts : List Token) :
    outsideAssignments (.operator .assign :: literal :: ts) = outsideAssignments ts := by
  simp [outsideAssignments]

theorem getLast?_ne_of_cons {t u : Token} {ts : List Token} (h : (t :: ts).getLast? ≠ some u) :
    ts.getLast? ≠ some u := by
  intro heq
  apply h
  rw [List.getLast?_cons, heq]
  rfl

/-- Tokens behind which no `=` waits are read apart from those that follow. -/
theorem outsideAssignments_append {ts : List Token} (h : ts.getLast? ≠ some (.operator .assign))
    (us : List Token) :
    outsideAssignments (ts ++ us) = outsideAssignments ts ++ outsideAssignments us := by
  induction ts using items_induction with
  | nil => rfl
  | single t ts ht ih =>
    rw [List.cons_append, outsideAssignments_cons ht, outsideAssignments_cons ht,
      ih (getLast?_ne_of_cons h), List.cons_append]
  | awaiting => exact absurd rfl h
  | assign literal ts ih =>
    rw [List.cons_append, List.cons_append, outsideAssignments_assign, outsideAssignments_assign,
      ih (getLast?_ne_of_cons (getLast?_ne_of_cons h))]

/-- **The latest of some tokens that belongs to no assignment is an operator other than `=`.** -/
def EndsInOperator (ts : List Token) : Prop :=
  ∃ t, (outsideAssignments ts).getLast? = some t ∧ t.isArithmetic = true

theorem not_endsInOperator_nil : ¬ EndsInOperator [] := by
  rintro ⟨t, ht, -⟩
  cases ht

/-- A last token that belongs to no assignment settles it. -/
theorem endsInOperator_concat {ts : List Token}
    (h : ts.getLast? ≠ some (.operator .assign)) {t : Token} (ht : t ≠ .operator .assign) :
    EndsInOperator (ts ++ [t]) ↔ t.isArithmetic = true := by
  have hlast : (outsideAssignments (ts ++ [t])).getLast? = some t := by
    rw [outsideAssignments_append h, outsideAssignments_cons ht, outsideAssignments,
      List.getLast?_concat]
  rw [EndsInOperator, hlast]
  simp

/-- An assignment at the end settles nothing. -/
theorem endsInOperator_append_assign {ts : List Token} (h : ts.getLast? ≠ some (.operator .assign))
    (literal : Token) :
    EndsInOperator (ts ++ [.operator .assign, literal]) ↔ EndsInOperator ts := by
  rw [EndsInOperator, outsideAssignments_append h, outsideAssignments_assign, outsideAssignments,
    List.append_nil, EndsInOperator]

namespace Evaluation

/-! ## What the flag tells -/

variable {e e' : Evaluation} {t : Token} {ts : List Token}

/-- A token that belongs to no assignment sets the flag. -/
theorem Accepts.afterOperator_eq (h : Accepts e t e') (ha : e.assigning = false)
    (ht : t ≠ .operator .assign) : e'.afterOperator = t.isArithmetic := by
  cases h with
  | target ha' => rw [ha] at ha'; cases ha'
  | number | identifier | negate | binary => rfl
  | assign => exact absurd rfl ht

/-- The text behind `=` leaves it. -/
theorem Accepts.afterOperator_eq_of_assigning (h : Accepts e t e') (ha : e.assigning = true) :
    e'.afterOperator = e.afterOperator := by
  cases h with
  | target => rfl
  | number ha' | identifier ha' | negate ha' | binary ha' | assign ha' => rw [ha] at ha'; cases ha'

/-- So does the `=`. -/
theorem Accepts.afterOperator_eq_of_assign (h : Accepts e (.operator .assign) e') :
    e.assigning = false ∧ e'.assigning = true ∧ e'.afterOperator = e.afterOperator := by
  cases h with
  | target _ ht => cases ht
  | assign ha => exact ⟨ha, rfl, rfl⟩

/-- **The flag is set by the latest token that belongs to no assignment**, and left as it is if
there is none. -/
theorem afterOperator_of_advance? (ha : e.assigning = false) (h : e.advance? ts = some e') :
    e'.afterOperator =
      ((outsideAssignments ts).getLast?.map Token.isArithmetic).getD e.afterOperator := by
  induction ts using items_induction generalizing e with
  | nil =>
    obtain rfl : e = e' := Option.some.inj h
    rfl
  | single t ts ht ih =>
    obtain ⟨e₁, h₁, h₂⟩ := Option.bind_eq_some_iff.mp h
    have haccepts := accepts_of_accept? h₁
    have ha₁ : e₁.assigning = false :=
      eq_false_of_ne_true fun htrue => ht (haccepts.assigning_iff.mp htrue)
    rw [ih ha₁ h₂, haccepts.afterOperator_eq ha ht, outsideAssignments_cons ht, List.getLast?_cons]
    cases (outsideAssignments ts).getLast? <;> rfl
  | awaiting =>
    rw [advance?_singleton] at h
    exact (accepts_of_accept? h).afterOperator_eq_of_assign.2.2
  | assign literal ts ih =>
    obtain ⟨e₁, h₁, h₁₂⟩ := Option.bind_eq_some_iff.mp h
    obtain ⟨e₂, h₂, h₃⟩ := Option.bind_eq_some_iff.mp h₁₂
    obtain ⟨-, ha₁, hflag⟩ := (accepts_of_accept? h₁).afterOperator_eq_of_assign
    have hliteral := accepts_of_accept? h₂
    rw [ih (hliteral.assigning_eq_false ha₁) h₃, hliteral.afterOperator_eq_of_assigning ha₁, hflag,
      outsideAssignments_assign]

/-- **The flag tells whether the latest token that belongs to no assignment is an operator other
than `=`.** -/
theorem afterOperator_iff {symbols : SymbolTable} (h : (start symbols).advance? ts = some e) :
    e.afterOperator = true ↔ EndsInOperator ts := by
  rw [afterOperator_of_advance? rfl h, EndsInOperator]
  cases (outsideAssignments ts).getLast? with
  | none => simp [start]
  | some t => simp

/-- **An operand is refused for its place** if and only if the flag is raised. -/
theorem feed_eq_fail_iff (ha : e.assigning = false) (ht : t.isOperand = true)
    (column : Nat) :
    e.feed t column = fail .operandAfterOperator column ↔ e.afterOperator = true := by
  constructor
  · intro h
    cases refuses_of_feed h with
    | numberAfterOperator _ ho | nameAfterOperator _ ho => exact ho
  · intro ho
    rw [feed.eq_def, if_neg (ne_true_of_eq_false ha)]
    cases t with
    | number text => exact if_pos ho
    | identifier name => exact if_pos ho
    | operator | invalid | endOfLine => cases ht

/-- The flag is raised where an operand is refused for its place. -/
theorem Refuses.eq_of_operandAfterOperator {column column' : Nat}
    (h : Refuses e column t (.failed ⟨.operandAfterOperator, column'⟩)) :
    e.assigning = false ∧ e.afterOperator = true ∧ column = column' := by
  cases h with
  | numberAfterOperator ha ho | nameAfterOperator ha ho => exact ⟨ha, ho, rfl⟩

end Evaluation

/-! ## Columns -/

/-- **The columns of the tokens of a text increase.** -/
theorem pairwise_lineTokens (position : Nat) (cs : List Char) :
    (lineTokens position cs).Pairwise fun x y => x.2 < y.2 := by
  have htiles := tiles_lexemes (fun _ => Nat.one_pos) position cs
  refine List.pairwise_append.mpr ⟨?_, List.pairwise_singleton _ _, ?_⟩
  · rw [List.pairwise_map]
    refine htiles.ordered.imp_of_mem fun {x y} hx _ hle => ?_
    exact Nat.succ_lt_succ (Nat.lt_of_lt_of_le (htiles.start_lt x hx) hle)
  · intro x hx y hy
    obtain ⟨lexeme, hlexeme, rfl⟩ := List.mem_map.mp hx
    obtain rfl := List.mem_singleton.mp hy
    obtain ⟨before, behind, rfl, hstart, hstop, -⟩ := htiles.stands lexeme hlexeme
    have hlt := htiles.start_lt lexeme hlexeme
    rw [extent_one] at hstart hstop
    simp only [List.length_append]
    omega

namespace LineCursor

/-- The columns of the pending tokens increase. -/
theorem pairwise_pending (l : LineCursor) : l.pending.Pairwise fun x y => x.2 < y.2 := by
  rw [pending]
  split
  · exact .nil
  · exact pairwise_lineTokens _ _

/-- **A column belongs to one of the pending tokens only.** -/
theorem split_unique {l : LineCursor} {before before' behind behind' : List (Token × Nat)}
    {t t' : Token} {column : Nat} (h : l.pending = before ++ (t, column) :: behind)
    (h' : l.pending = before' ++ (t', column) :: behind') :
    before = before' ∧ t = t' ∧ behind = behind' := by
  have hpairwise := l.pairwise_pending
  rw [h] at hpairwise h'
  clear h
  induction before generalizing before' with
  | nil =>
    cases before' with
    | nil =>
      obtain ⟨htoken, hbehind⟩ := List.cons.inj h'
      exact ⟨rfl, congrArg Prod.fst htoken, hbehind⟩
    | cons u before' =>
      -- the column would stand a second time among those behind the first token
      obtain ⟨-, rfl⟩ := List.cons.inj h'
      have hlt := (List.pairwise_cons.mp hpairwise).1 (t', column) (by simp)
      exact absurd hlt (Nat.lt_irrefl column)
  | cons u before ih =>
    cases before' with
    | nil =>
      obtain ⟨rfl, -⟩ := List.cons.inj h'
      have hlt := (List.pairwise_cons.mp hpairwise).1 (t, column) (by simp)
      exact absurd hlt (Nat.lt_irrefl column)
    | cons u' before' =>
      obtain ⟨rfl, htail⟩ := List.cons.inj h'
      obtain ⟨rfl, ht, hbehind⟩ := ih htail (List.pairwise_cons.mp hpairwise).2
      exact ⟨rfl, ht, hbehind⟩

end LineCursor

namespace Session

open Evaluation

/-! ## Operands that are rejected -/

section Rejects

variable {s : Session} {r : TokenReader} {before behind : List (Token × Nat)} {t : Token}
  {column : Nat} {e : Evaluation}

/-- A line fails at an operand for its place if and only if the flag is raised there. -/
theorem rejects_iff_afterOperator (hready : s.reader.ready = (.ok (), r))
    (hline : r.line.pending = before ++ (t, column) :: behind)
    (hreached : (start s.symbols).advance? (before.map Prod.fst) = some e)
    (ha : e.assigning = false) (ht : t.isOperand = true) :
    s.lineValue.1 = .error (.failed ⟨.operandAfterOperator, column⟩) ↔ e.afterOperator = true := by
  constructor
  · intro herror
    obtain ⟨accepted, e', t', column', behind', hsettles, -, hverdict⟩ := lineValue_settles hready
    rw [herror] at hverdict
    obtain ⟨-, ho, rfl⟩ :=
      (refuses_of_feed (Progress.eq_stopped_of_verdict? hverdict).1).eq_of_operandAfterOperator
    obtain ⟨rfl, -, -⟩ := LineCursor.split_unique hline hsettles.line_eq
    obtain rfl : e = e' := Option.some.inj (hreached.symm.trans hsettles.advance_eq)
    exact ho
  · intro ho
    have hfeed := (feed_eq_fail_iff ha ht column).mpr ho
    have hhere : Settles (start s.symbols) r.line.pending before e t column behind :=
      ⟨hline, hreached, accept?_of_stopped hfeed⟩
    obtain ⟨-, hverdict⟩ := lineValue_of_settles hready hhere
    rw [hfeed] at hverdict
    exact (Prod.mk.inj (Option.some.inj hverdict)).1.symm

/-- **Which operands are rejected for the place at which they stand**, when a line comes to them. An
operand is rejected if and only if the latest token before it that belongs to no assignment is an
operator other than `=`. So it never is at the beginning of its line. If no assignment stands right
before it, it is rejected for the token right before it; if one does, it is as if the assignment
were not there, whatever number the assignment ends with. -/
theorem rejects_operand_iff (hready : s.reader.ready = (.ok (), r))
    (hline : r.line.pending = before ++ (t, column) :: behind)
    (hreached : (start s.symbols).advance? (before.map Prod.fst) = some e)
    (ht : t.isOperand = true) (hplace : (before.map Prod.fst).getLast? ≠ some (.operator .assign)) :
    let rejected := s.lineValue.1 = .error (.failed ⟨.operandAfterOperator, column⟩)
    (rejected ↔ EndsInOperator (before.map Prod.fst)) ∧
    (before = [] → ¬ rejected) ∧
    (∀ ts u, before.map Prod.fst = ts ++ [u] → ts.getLast? ≠ some (.operator .assign) →
      (rejected ↔ u.isArithmetic = true)) ∧
    ∀ ts literal, before.map Prod.fst = ts ++ [.operator .assign, literal] →
      (rejected ↔ EndsInOperator ts) := by
  intro rejected
  have ha : e.assigning = false :=
    eq_false_of_ne_true fun htrue => hplace ((assigning_of_advance? rfl hreached).mp htrue)
  have hiff : rejected ↔ EndsInOperator (before.map Prod.fst) :=
    (rejects_iff_afterOperator hready hline hreached ha ht).trans (afterOperator_iff hreached)
  refine ⟨hiff, ?_, fun ts u hts hlast => ?_, fun ts literal hts => ?_⟩
  · rintro rfl
    rw [hiff]
    exact not_endsInOperator_nil
  · have hu : u ≠ .operator .assign := by
      rintro rfl
      exact hplace (by rw [hts, List.getLast?_concat])
    rw [hiff, hts, endsInOperator_concat hlast hu]
  · -- the `=` was accepted, so that it stood behind no other `=`
    have hlast : ts.getLast? ≠ some (.operator .assign) := by
      intro heq
      rw [hts, advance?_append] at hreached
      obtain ⟨e₁, h₁, h₂⟩ := Option.bind_eq_some_iff.mp hreached
      obtain ⟨e₂, hassign, -⟩ := Option.bind_eq_some_iff.mp h₂
      have ha₁ := (accepts_of_accept? hassign).afterOperator_eq_of_assign.1
      rw [(assigning_of_advance? rfl h₁).mpr heq] at ha₁
      cases ha₁
    rw [hiff, hts, endsInOperator_append_assign hlast]

end Rejects

/-- The tokens of `1 2 + = 5` are accepted, and lead to the operand behind them. -/
theorem rejects_operand_assigned :
    let s : Session := ⟨.holding "1 2 + = 5 3 +".toList, ∅⟩
    s.reader.ready = (.ok (), s.reader) ∧
      (s.lineValue.1 = .error (.failed ⟨.operandAfterOperator, 11⟩) ↔
        EndsInOperator [.number "1", .number "2", .operator (.binary .add)]) := by
  intro s
  have hready : s.reader.ready = (.ok (), s.reader) := TokenReader.ready_holding _
  have hline : s.reader.line.pending =
      [(.number "1", 1), (.number "2", 3), (.operator (.binary .add), 5), (.operator .assign, 7),
        (.number "5", 9)] ++
        (.number "3", 11) :: [(.operator (.binary .add), 13), (.endOfLine, 14)] := by
    decide +kernel
  have hreached : ∃ e, (Evaluation.start s.symbols).advance?
      [.number "1", .number "2", .operator (.binary .add), .operator .assign, .number "5"] =
        some e :=
    Option.isSome_iff_exists.mp (by decide +kernel)
  obtain ⟨e, hreached⟩ := hreached
  obtain ⟨-, -, -, hassigned⟩ := rejects_operand_iff hready hline hreached rfl (by decide)
  exact ⟨hready, hassigned _ (.number "5") rfl⟩

/-- **A number right before an operand does not save it**, if an assignment ends with that
number. -/
theorem rejects_operand_behind_number :
    let s : Session := ⟨.holding "1 2 + = 5 3 +".toList, ∅⟩
    (.number "5", 9) :: (.number "3", 11) :: [(.operator (.binary .add), 13), (.endOfLine, 14)] <:+
        s.reader.line.pending ∧
      (Token.number "5").isArithmetic = false ∧
      s.lineValue.1 = .error (.failed ⟨.operandAfterOperator, 11⟩) := by
  decide +kernel

end Session

end StackCalculator
