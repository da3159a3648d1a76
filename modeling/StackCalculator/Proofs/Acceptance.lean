import StackCalculator.Proofs.Pending
import StackCalculator.Session

/-!
# Accepting tokens

A token is accepted if the evaluation of its line goes on after it. Whether it is, and how it goes
on, does not depend on its column. A line is evaluated as far as its tokens are accepted; the first
one that is not settles what becomes of it, and the tokens behind that one stay pending.

## Main definitions

* `Token.numeral?`: the number that the text of a token spells
* `Evaluation.accept?`, `Evaluation.advance?`: one accepted token, and several
* `Evaluation.Accepts`: what each kind of token needs in order to be accepted, and what it does
* `Evaluation.Refuses`: why a token of each kind is refused, and with what
* `Evaluation.Settles`: a line whose tokens are accepted up to one that is not

## Main results

* `Evaluation.accept?_eq_some_iff`: a token is accepted if and only if it has what its kind needs
* `Evaluation.refuses_of_feed`, `Evaluation.Refuses.feed_eq`: a token that interrupts its line is
  refused for a reason of its kind, and the other way round
* `Evaluation.Settles.unique`: a line is settled by one token only
* `Session.restValue_settles`: the evaluation of a line is settled by a token of the line
-/

namespace StackCalculator

namespace Token

/-- The text of a number or a name. -/
def text? : Token → Option String
  | .number text | .identifier text => some text
  | _ => none

/-- **The number that the text of a token spells**, if it has a text and that is a number. -/
def numeral? (t : Token) : Option Float :=
  t.text?.bind Literal.read?

end Token

namespace Evaluation

/-! ## One token -/

/-- The evaluation that goes on, if one does. -/
def Progress.next? : Progress → Option Evaluation
  | .next e _ => some e
  | _ => none

theorem Progress.next?_eq_some_iff {p : Progress} {e : Evaluation} :
    p.next? = some e ↔ ∃ remark?, p = .next e remark? := by
  constructor
  · intro h
    cases p with
    | next e' remark? =>
      obtain rfl : e' = e := Option.some.inj h
      exact ⟨remark?, rfl⟩
    | done => cases h
    | stopped => cases h
  · rintro ⟨remark?, rfl⟩
    rfl

/-- The evaluation after the text behind `=`, whose number is `x`. -/
def assigned (e : Evaluation) (text : String) (x : Float) : Evaluation :=
  { e with
    symbols := e.symbols.insert e.lastName x, stack := x :: e.stack, target := text,
    assigning := false }

/-- The evaluation after a name that stands as an operand. -/
def named (e : Evaluation) (name : String) : Evaluation :=
  push { e with symbols := e.symbols.read name, lastName := name } (e.symbols.value name)

/-- The evaluation after an operator that leaves `x` on top of the stack. -/
def replaced (e : Evaluation) (x : Float) (stack : List Float) : Evaluation :=
  { e with stack := x :: stack, afterOperator := true }

/-- The evaluation after `=`, which leaves `stack`. -/
def awaiting (e : Evaluation) (stack : List Float) : Evaluation :=
  { e with stack, assigning := true }

theorem next?_feed_target {e : Evaluation} (h : e.assigning = true) (t : Token) (column : Nat) :
    (e.feed t column).next? =
      t.text?.bind fun text => (Literal.read? text).map (e.assigned text) := by
  rw [feed.eq_def, if_pos h]
  cases t with
  | number text | identifier text =>
    simp only [feedTarget, Literal.value, Token.text?, Option.bind_some]
    cases Literal.read? text <;> rfl
  | operator op => rfl
  | invalid c => rfl
  | endOfLine => rfl

variable {e : Evaluation} (h : e.assigning = false)

include h

theorem next?_feed_number (text : String) (column : Nat) :
    (e.feed (.number text) column).next? =
      if e.afterOperator then none else (Literal.read? text).map e.push := by
  rw [feed.eq_def, if_neg (ne_true_of_eq_false h)]
  simp only [feedNumber, Literal.value]
  split
  · rfl
  · cases Literal.read? text <;> rfl

theorem next?_feed_identifier (name : String) (column : Nat) :
    (e.feed (.identifier name) column).next? =
      if e.afterOperator ∨ name = exitName then none else some (e.named name) := by
  rw [feed.eq_def, if_neg (ne_true_of_eq_false h)]
  simp only [feedName]
  by_cases ho : e.afterOperator = true
  · rw [if_pos ho, if_pos (.inl ho)]
    rfl
  · by_cases he : name = exitName
    · rw [if_neg ho, if_pos he, if_pos (.inr he)]
      rfl
    · rw [if_neg ho, if_neg he, if_neg (not_or.mpr ⟨ho, he⟩)]
      rfl

theorem next?_feed_negate (column : Nat) :
    (e.feed (.operator .negate) column).next? =
      match e.stack with
      | x :: stack => some (e.replaced (-x) stack)
      | [] => none := by
  rw [feed.eq_def, if_neg (ne_true_of_eq_false h)]
  simp only [feedNegate]
  cases e.stack <;> rfl

theorem next?_feed_binary (op : BinaryOperator) (column : Nat) :
    (e.feed (.operator (.binary op)) column).next? =
      match e.stack with
      | right :: left :: stack => (op.apply left right).toOption.map fun x => e.replaced x stack
      | _ => none := by
  rw [feed.eq_def, if_neg (ne_true_of_eq_false h)]
  simp only [feedBinary]
  rcases e.stack with - | ⟨right, - | ⟨left, stack⟩⟩
  · rfl
  · rfl
  · dsimp only
    cases op.apply left right <;> rfl

theorem next?_feed_assign (column : Nat) :
    (e.feed (.operator .assign) column).next? =
      match e.stack with
      | _ :: stack => some (e.awaiting stack)
      | [] => none := by
  rw [feed.eq_def, if_neg (ne_true_of_eq_false h)]
  simp only [feedAssign]
  cases e.stack <;> rfl

theorem next?_feed_invalid (c : Char) (column : Nat) :
    (e.feed (.invalid c) column).next? = none := by
  rw [feed.eq_def, if_neg (ne_true_of_eq_false h)]
  rfl

omit h

theorem next?_feed_endOfLine (e : Evaluation) (column : Nat) :
    (e.feed .endOfLine column).next? = none := by
  cases hn : (e.feed .endOfLine column).next? with
  | none => rfl
  | some e' =>
    obtain ⟨remark?, hr⟩ := Progress.next?_eq_some_iff.mp hn
    exact absurd rfl (ne_endOfLine_of_next hr)

/-- **Accepting a token**: the evaluation goes on after it. -/
def accept? (e : Evaluation) (t : Token) : Option Evaluation :=
  (e.feed t 1).next?

/-- Whether a token is accepted does not depend on its column. -/
theorem next?_feed (e : Evaluation) (t : Token) (column : Nat) :
    (e.feed t column).next? = e.accept? t := by
  cases h : e.assigning with
  | true => rw [accept?, next?_feed_target h, next?_feed_target h]
  | false =>
    rw [accept?]
    cases t with
    | number text => rw [next?_feed_number h, next?_feed_number h]
    | identifier name => rw [next?_feed_identifier h, next?_feed_identifier h]
    | operator op =>
      cases op with
      | binary op => rw [next?_feed_binary h, next?_feed_binary h]
      | negate => rw [next?_feed_negate h, next?_feed_negate h]
      | assign => rw [next?_feed_assign h, next?_feed_assign h]
    | invalid c => rw [next?_feed_invalid h, next?_feed_invalid h]
    | endOfLine => rw [next?_feed_endOfLine, next?_feed_endOfLine]

/-- A token behind which the line goes on is accepted. -/
theorem accept?_of_feed {e e' : Evaluation} {t : Token} {column : Nat} {remark? : Option Remark}
    (h : e.feed t column = .next e' remark?) : e.accept? t = some e' := by
  rw [← next?_feed e t column, h]
  rfl

/-- A token that interrupts its line is not accepted. -/
theorem accept?_of_stopped {e : Evaluation} {t : Token} {column : Nat} {i : Interrupt}
    (h : e.feed t column = .stopped i) : e.accept? t = none := by
  rw [← next?_feed e t column, h]
  rfl

/-- **What each kind of token needs in order to be accepted, and what it does.** -/
inductive Accepts (e : Evaluation) : Token → Evaluation → Prop
  | target {t : Token} {text : String} {x : Float} (ha : e.assigning = true)
      (ht : t.text? = some text) (hx : Literal.read? text = some x) :
      Accepts e t (e.assigned text x)
  | number {text : String} {x : Float} (ha : e.assigning = false) (ho : e.afterOperator = false)
      (hx : Literal.read? text = some x) : Accepts e (.number text) (e.push x)
  | identifier {name : String} (ha : e.assigning = false) (ho : e.afterOperator = false)
      (hne : name ≠ exitName) : Accepts e (.identifier name) (e.named name)
  | negate {x : Float} {stack : List Float} (ha : e.assigning = false) (hs : e.stack = x :: stack) :
      Accepts e (.operator .negate) (e.replaced (-x) stack)
  | binary {op : BinaryOperator} {left right x : Float} {stack : List Float}
      (ha : e.assigning = false) (hs : e.stack = right :: left :: stack)
      (hx : op.apply left right = .ok x) :
      Accepts e (.operator (.binary op)) (e.replaced x stack)
  | assign {x : Float} {stack : List Float} (ha : e.assigning = false) (hs : e.stack = x :: stack) :
      Accepts e (.operator .assign) (e.awaiting stack)

theorem accepts_of_accept? {e e' : Evaluation} {t : Token} (h : e.accept? t = some e') :
    Accepts e t e' := by
  rw [accept?] at h
  cases ha : e.assigning with
  | true =>
    rw [next?_feed_target ha] at h
    obtain ⟨text, ht, hmap⟩ := Option.bind_eq_some_iff.mp h
    obtain ⟨x, hx, rfl⟩ := Option.map_eq_some_iff.mp hmap
    exact .target ha ht hx
  | false =>
    cases t with
    | number text =>
      rw [next?_feed_number ha] at h
      split at h
      · cases h
      · next ho =>
        obtain ⟨x, hx, rfl⟩ := Option.map_eq_some_iff.mp h
        exact .number ha (eq_false_of_ne_true ho) hx
    | identifier name =>
      rw [next?_feed_identifier ha] at h
      split at h
      · cases h
      · next hn =>
        obtain ⟨ho, hne⟩ := not_or.mp hn
        cases h
        exact .identifier ha (eq_false_of_ne_true ho) hne
    | operator op =>
      cases op with
      | binary op =>
        rw [next?_feed_binary ha] at h
        split at h
        · next right left stack hs =>
          cases hx : op.apply left right with
          | error fault => rw [hx] at h; cases h
          | ok x => rw [hx] at h; cases h; exact .binary ha hs hx
        · cases h
      | negate =>
        rw [next?_feed_negate ha] at h
        split at h
        · next x stack hs =>
          cases h
          exact .negate ha hs
        · cases h
      | assign =>
        rw [next?_feed_assign ha] at h
        split at h
        · next x stack hs =>
          cases h
          exact .assign ha hs
        · cases h
    | invalid c =>
      rw [next?_feed_invalid ha] at h
      cases h
    | endOfLine =>
      rw [next?_feed_endOfLine] at h
      cases h

theorem Accepts.accept? {e e' : Evaluation} {t : Token} (h : Accepts e t e') :
    e.accept? t = some e' := by
  rw [Evaluation.accept?]
  cases h with
  | target ha ht hx => rw [next?_feed_target ha, ht, Option.bind_some, hx, Option.map_some]
  | number ha ho hx => rw [next?_feed_number ha, ho, if_neg Bool.false_ne_true, hx, Option.map_some]
  | identifier ha ho hne =>
    rw [next?_feed_identifier ha, if_neg (not_or.mpr ⟨ne_true_of_eq_false ho, hne⟩)]
  | negate ha hs => rw [next?_feed_negate ha, hs]
  | binary ha hs hx =>
    rw [next?_feed_binary ha, hs]
    simp only [hx]
    rfl
  | assign ha hs => rw [next?_feed_assign ha, hs]

/-- **A token is accepted if and only if it has what its kind needs.** -/
theorem accept?_eq_some_iff {e e' : Evaluation} {t : Token} :
    e.accept? t = some e' ↔ Accepts e t e' :=
  ⟨accepts_of_accept?, Accepts.accept?⟩

/-- **Why a token of each kind is refused, and what its line is interrupted with.** -/
inductive Refuses (e : Evaluation) (column : Nat) : Token → Interrupt → Prop
  | missingText {t : Token} (ha : e.assigning = true) (ht : t.text? = none) :
      Refuses e column t (.failed ⟨.expectedVariableAfterAssign, column⟩)
  | invalidTarget {t : Token} {text : String} (ha : e.assigning = true) (ht : t.text? = some text)
      (hx : Literal.read? text = none) : Refuses e column t (.fatal (.invalidNumber text column))
  | numberAfterOperator {text : String} (ha : e.assigning = false) (ho : e.afterOperator = true) :
      Refuses e column (.number text) (.failed ⟨.operandAfterOperator, column⟩)
  | invalidNumber {text : String} (ha : e.assigning = false) (ho : e.afterOperator = false)
      (hx : Literal.read? text = none) :
      Refuses e column (.number text) (.fatal (.invalidNumber text column))
  | nameAfterOperator {name : String} (ha : e.assigning = false) (ho : e.afterOperator = true) :
      Refuses e column (.identifier name) (.failed ⟨.operandAfterOperator, column⟩)
  | exit (ha : e.assigning = false) (ho : e.afterOperator = false) :
      Refuses e column (.identifier exitName) (.ended .exit)
  | missingOperand (ha : e.assigning = false) (hs : e.stack = []) :
      Refuses e column (.operator .negate) (.failed ⟨.missingOperand, column⟩)
  | insufficientOperands {op : BinaryOperator} (ha : e.assigning = false)
      (hs : e.stack.length < 2) :
      Refuses e column (.operator (.binary op)) (.failed ⟨.insufficientOperands, column⟩)
  | divisionByZero {left right : Float} {stack : List Float} (ha : e.assigning = false)
      (hs : e.stack = right :: left :: stack) (hz : (right == 0) = true) :
      Refuses e column (.operator (.binary .divide)) (.failed ⟨.divisionByZero, column⟩)
  | noValueToAssign (ha : e.assigning = false) (hs : e.stack = []) :
      Refuses e column (.operator .assign) (.failed ⟨.noValueToAssign, column⟩)
  | badToken {c : Char} (ha : e.assigning = false) :
      Refuses e column (.invalid c) (.failed ⟨.badToken c, column⟩)
  | malformedExpression (ha : e.assigning = false) (hs : e.stack.length ≠ 1) :
      Refuses e column .endOfLine (.failed ⟨.malformedExpression, column⟩)

theorem apply_eq_error {op : BinaryOperator} {left right : Float} {fault : Fault}
    (h : op.apply left right = .error fault) :
    op = .divide ∧ (right == 0) = true ∧ fault = .divisionByZero := by
  cases op with
  | add | subtract | multiply => cases h
  | divide =>
    simp only [BinaryOperator.apply] at h
    split at h
    · next hz =>
      cases h
      exact ⟨rfl, hz, rfl⟩
    · cases h

/-- **A token that interrupts its line is refused for a reason of its kind.** -/
theorem refuses_of_feed {e : Evaluation} {t : Token} {column : Nat} {i : Interrupt}
    (h : e.feed t column = .stopped i) : Refuses e column t i := by
  rw [feed.eq_def] at h
  split at h
  · next ha =>
    -- behind `=`, a number and a name are treated alike
    have htext : ∀ {text}, t.text? = some text → e.feedTarget text column = .stopped i →
        Refuses e column t i := by
      intro text ht h
      simp only [feedTarget, Literal.value] at h
      cases hx : Literal.read? text with
      | none =>
        rw [hx] at h
        cases h
        exact .invalidTarget ha ht hx
      | some x => rw [hx] at h; cases h
    cases t with
    | number text | identifier text => exact htext rfl h
    | operator | invalid | endOfLine => cases h; exact .missingText ha rfl
  · next ha =>
    have ha := eq_false_of_ne_true ha
    cases t with
    | number text =>
      simp only [feedNumber, Literal.value] at h
      split at h
      · next ho => cases h; exact .numberAfterOperator ha ho
      · next ho =>
        cases hx : Literal.read? text with
        | none =>
          rw [hx] at h
          cases h
          exact .invalidNumber ha (eq_false_of_ne_true ho) hx
        | some x => rw [hx] at h; cases h
    | identifier name =>
      simp only [feedName] at h
      split at h
      · next ho => cases h; exact .nameAfterOperator ha ho
      · next ho =>
        split at h
        · next he =>
          cases h
          rw [he]
          exact .exit ha (eq_false_of_ne_true ho)
        · cases h
    | operator op =>
      cases op with
      | binary op =>
        simp only [feedBinary] at h
        split at h
        · next right left stack hs =>
          cases hx : op.apply left right with
          | ok x => rw [hx] at h; cases h
          | error fault =>
            obtain ⟨rfl, hz, rfl⟩ := apply_eq_error hx
            rw [hx] at h
            cases h
            exact .divisionByZero ha hs hz
        · next hs =>
          cases h
          refine .insufficientOperands ha (Nat.lt_of_not_le fun hlen => ?_)
          rcases hstack : e.stack with - | ⟨right, - | ⟨left, stack⟩⟩
          · simp [hstack] at hlen
          · simp [hstack] at hlen
          · exact hs _ _ _ hstack
      | negate =>
        simp only [feedNegate] at h
        split at h
        · cases h
        · next hs => cases h; exact .missingOperand ha hs
      | assign =>
        simp only [feedAssign] at h
        split at h
        · cases h
        · next hs => cases h; exact .noValueToAssign ha hs
    | invalid c => cases h; exact .badToken ha
    | endOfLine =>
      simp only [finish] at h
      split at h
      · cases h
      · next hs =>
        cases h
        refine .malformedExpression ha fun hlen => ?_
        obtain ⟨x, hx⟩ := List.length_eq_one_iff.mp hlen
        exact hs x hx

/-- **A refused token interrupts its line.** -/
theorem Refuses.feed_eq {e : Evaluation} {t : Token} {column : Nat} {i : Interrupt}
    (h : Refuses e column t i) : e.feed t column = .stopped i := by
  rw [feed.eq_def]
  cases h with
  | missingText ha ht =>
    rw [if_pos ha]
    cases t with
    | number | identifier => cases ht
    | operator | invalid | endOfLine => rfl
  | invalidTarget ha ht hx =>
    rw [if_pos ha]
    cases t with
    | number | identifier =>
      cases ht
      simp only [feedTarget, Literal.value, hx]
    | operator | invalid | endOfLine => cases ht
  | numberAfterOperator ha ho | nameAfterOperator ha ho =>
    rw [if_neg (ne_true_of_eq_false ha)]
    exact if_pos ho
  | invalidNumber ha ho hx =>
    rw [if_neg (ne_true_of_eq_false ha)]
    simp only [feedNumber, Literal.value, hx]
    exact if_neg (ne_true_of_eq_false ho)
  | exit ha ho =>
    rw [if_neg (ne_true_of_eq_false ha)]
    exact (if_neg (ne_true_of_eq_false ho)).trans (if_pos rfl)
  | missingOperand ha hs =>
    rw [if_neg (ne_true_of_eq_false ha)]
    simp only [feedNegate, hs]
    rfl
  | insufficientOperands ha hs =>
    rw [if_neg (ne_true_of_eq_false ha)]
    simp only [feedBinary]
    rcases hstack : e.stack with - | ⟨right, - | ⟨left, stack⟩⟩
    · rfl
    · rfl
    · rw [hstack, List.length_cons, List.length_cons] at hs
      omega
  | divisionByZero ha hs hz =>
    rw [if_neg (ne_true_of_eq_false ha)]
    simp only [feedBinary, hs, BinaryOperator.apply, hz]
    rfl
  | noValueToAssign ha hs =>
    rw [if_neg (ne_true_of_eq_false ha)]
    simp only [feedAssign, hs]
    rfl
  | badToken ha =>
    rw [if_neg (ne_true_of_eq_false ha)]
    rfl
  | malformedExpression ha hs =>
    rw [if_neg (ne_true_of_eq_false ha)]
    simp only [finish]
    split
    · next hstack => exact absurd (congrArg List.length hstack) hs
    · rfl

/-! ## Several tokens -/

/-- **Accepting several tokens**, one after the other. -/
def advance? (e : Evaluation) : List Token → Option Evaluation
  | [] => some e
  | t :: ts => (e.accept? t).bind fun e => e.advance? ts

@[simp]
theorem advance?_nil (e : Evaluation) : e.advance? [] = some e := rfl

@[simp]
theorem advance?_cons (e : Evaluation) (t : Token) (ts : List Token) :
    e.advance? (t :: ts) = (e.accept? t).bind fun e => e.advance? ts := rfl

theorem advance?_singleton (e : Evaluation) (t : Token) : e.advance? [t] = e.accept? t := by
  rw [advance?_cons]
  exact Option.bind_fun_some _

theorem advance?_append (e : Evaluation) (ts us : List Token) :
    e.advance? (ts ++ us) = (e.advance? ts).bind fun e => e.advance? us := by
  induction ts generalizing e with
  | nil => rfl
  | cons t ts ih =>
    rw [List.cons_append, advance?_cons, advance?_cons, Option.bind_assoc]
    exact congrArg _ (funext fun e => ih e)

/-- Behind a token, nothing but `=` waits for a text. -/
theorem Accepts.assigning_iff {e e' : Evaluation} {t : Token} (h : Accepts e t e') :
    e'.assigning = true ↔ t = .operator .assign := by
  cases h with
  | @target t text x ha ht hx =>
    refine iff_of_false Bool.false_ne_true ?_
    rintro rfl
    cases ht
  | number ha => simp [push, ha]
  | identifier ha => simp [named, push, ha]
  | negate ha => simp [replaced, ha]
  | binary ha => simp [replaced, ha]
  | assign ha => simp [awaiting]

/-- Behind the text that was waited for, nothing waits for another one. -/
theorem Accepts.assigning_eq_false {e e' : Evaluation} {t : Token} (h : Accepts e t e')
    (ha : e.assigning = true) : e'.assigning = false := by
  cases h with
  | target => rfl
  | number ha' | identifier ha' | negate ha' | binary ha' | assign ha' => rw [ha] at ha'; cases ha'

/-- **A line waits for a text exactly behind `=`.** -/
theorem assigning_of_advance? {e e' : Evaluation} {ts : List Token} (ha : e.assigning = false)
    (h : e.advance? ts = some e') :
    e'.assigning = true ↔ ts.getLast? = some (.operator .assign) := by
  rcases List.eq_nil_or_concat ts with rfl | ⟨ts, t, rfl⟩
  · obtain rfl : e = e' := Option.some.inj h
    simp [ha]
  · rw [List.concat_eq_append] at h ⊢
    rw [advance?_append] at h
    obtain ⟨e₁, -, h₁⟩ := Option.bind_eq_some_iff.mp h
    obtain ⟨e₂, h₂, h₃⟩ := Option.bind_eq_some_iff.mp h₁
    obtain rfl : e₂ = e' := Option.some.inj h₃
    rw [(accepts_of_accept? h₂).assigning_iff, List.getLast?_concat, Option.some_inj]

/-- **A line whose tokens are accepted up to one that is not**: the tokens accepted, the evaluation
after them, the token that is not accepted, and the tokens behind it. -/
structure Settles (e : Evaluation) (line accepted : List (Token × Nat)) (e' : Evaluation)
    (t : Token) (column : Nat) (behind : List (Token × Nat)) : Prop where
  line_eq : line = accepted ++ (t, column) :: behind
  advance_eq : e.advance? (accepted.map Prod.fst) = some e'
  accept_eq : e'.accept? t = none

/-- A line begins with what is accepted of it. -/
theorem Settles.cons {e e₁ e' : Evaluation} {line accepted behind : List (Token × Nat)}
    {t u : Token} {column column' : Nat} (hu : e.accept? u = some e₁)
    (h : Settles e₁ line accepted e' t column behind) :
    Settles e ((u, column') :: line) ((u, column') :: accepted) e' t column behind where
  line_eq := by rw [h.line_eq, List.cons_append]
  advance_eq := by rw [List.map_cons, advance?_cons, hu, Option.bind_some, h.advance_eq]
  accept_eq := h.accept_eq

/-- **A line is settled by one token only.** -/
theorem Settles.unique {line : List (Token × Nat)} :
    ∀ {e e₁ e₂ : Evaluation} {accepted₁ accepted₂ behind₁ behind₂ : List (Token × Nat)}
      {t₁ t₂ : Token} {column₁ column₂ : Nat}, Settles e line accepted₁ e₁ t₁ column₁ behind₁ →
      Settles e line accepted₂ e₂ t₂ column₂ behind₂ →
      accepted₁ = accepted₂ ∧ e₁ = e₂ ∧ (t₁, column₁) = (t₂, column₂) ∧ behind₁ = behind₂ := by
  induction line with
  | nil => exact fun h _ => absurd h.line_eq (by simp)
  | cons u line ih =>
    rintro e e₁ e₂ accepted₁ accepted₂ behind₁ behind₂ t₁ t₂ column₁ column₂
      ⟨hline₁, hadv₁, hacc₁⟩ ⟨hline₂, hadv₂, hacc₂⟩
    rcases accepted₁ with - | ⟨v₁, accepted₁⟩ <;> rcases accepted₂ with - | ⟨v₂, accepted₂⟩
    · obtain rfl : e = e₁ := Option.some.inj hadv₁
      obtain rfl : e = e₂ := Option.some.inj hadv₂
      rw [hline₁] at hline₂
      obtain ⟨htoken, hbehind⟩ := List.cons.inj hline₂
      exact ⟨rfl, rfl, htoken, hbehind⟩
    · -- the first token of the line is accepted on one side and not on the other
      obtain rfl : e = e₁ := Option.some.inj hadv₁
      obtain ⟨rfl, -⟩ := List.cons.inj (hline₁.symm.trans hline₂)
      rw [List.map_cons, advance?_cons, hacc₁] at hadv₂
      cases hadv₂
    · obtain rfl : e = e₂ := Option.some.inj hadv₂
      obtain ⟨rfl, -⟩ := List.cons.inj (hline₂.symm.trans hline₁)
      rw [List.map_cons, advance?_cons, hacc₂] at hadv₁
      cases hadv₁
    · -- both sides accept the first token, and go on from the same evaluation
      obtain ⟨rfl, hrest₁⟩ := List.cons.inj hline₁
      obtain ⟨rfl, hrest₂⟩ := List.cons.inj hline₂
      rw [List.map_cons, advance?_cons] at hadv₁ hadv₂
      obtain ⟨e', hu, hadv₁⟩ := Option.bind_eq_some_iff.mp hadv₁
      rw [hu] at hadv₂
      obtain ⟨haccepted, he, htoken, hbehind⟩ :=
        ih ⟨hrest₁, hadv₁, hacc₁⟩ ⟨hrest₂, hadv₂, hacc₂⟩
      exact ⟨congrArg _ haccepted, he, htoken, hbehind⟩

/-- Tokens that are accepted one and all leave it to the end of the line. -/
theorem Settles.of_endOfLine {e e' : Evaluation} {before : List (Token × Nat)} {column : Nat}
    (h : e.advance? (before.map Prod.fst) = some e') :
    Settles e (before ++ [(.endOfLine, column)]) before e' .endOfLine column [] :=
  ⟨rfl, h, next?_feed_endOfLine e' 1⟩

/-- The end of a line gives it the one value on the stack, unless a text is missing. -/
theorem feed_endOfLine_eq_done_iff {e : Evaluation} {column : Nat} {x : Float}
    {symbols : SymbolTable} :
    (∃ remark, e.feed .endOfLine column = .done x symbols remark) ↔
      e.assigning = false ∧ e.stack = [x] ∧ symbols = e.symbols.insert e.target x := by
  rw [feed.eq_def]
  cases ha : e.assigning with
  | true => simp [fail]
  | false =>
    simp only [finish, Bool.false_eq_true, if_false, true_and]
    split
    · next y hs =>
      rw [hs]
      constructor
      · rintro ⟨remark, h⟩
        cases h
        exact ⟨rfl, rfl⟩
      · rintro ⟨hy, rfl⟩
        obtain rfl : y = x := List.head_eq_of_cons_eq hy
        exact ⟨_, rfl⟩
    · next hs => simp_all [fail]

/-- What a token that is not accepted makes of a line, whose names have these values before it. -/
def Progress.verdict? (symbols : SymbolTable) :
    Progress → Option (Except Interrupt Float × SymbolTable)
  | .next .. => none
  | .done x symbols _ => some (.ok x, symbols)
  | .stopped i => some (.error i, symbols)

/-- Only the end of a line gives it a value. -/
theorem Progress.exists_done_of_verdict? {p : Progress} {symbols symbols' : SymbolTable} {x : Float}
    (h : p.verdict? symbols = some (.ok x, symbols')) : ∃ remark, p = .done x symbols' remark := by
  cases p with
  | next | stopped => cases h
  | done y symbols remark =>
    cases h
    exact ⟨remark, rfl⟩

/-- Only a token that interrupts a line leaves it without a value. -/
theorem Progress.eq_stopped_of_verdict? {p : Progress} {symbols symbols' : SymbolTable}
    {i : Interrupt} (h : p.verdict? symbols = some (.error i, symbols')) :
    p = .stopped i ∧ symbols = symbols' := by
  cases p with
  | next | done => cases h
  | stopped j =>
    cases h
    exact ⟨rfl, rfl⟩

end Evaluation

namespace Session

open Evaluation

/-- **The evaluation of a line is settled by a token of the line**: the tokens before it are
accepted, those behind it stay pending, and the rest is up to that token alone. -/
theorem restValue_settles (e : Evaluation) (r : TokenReader)
    (hr : r.line.phase.isFinished = false) :
    ∃ accepted e' t column behind, Settles e r.line.pending accepted e' t column behind ∧
      (restValue e r).2.reader.line.pending = behind ∧
      (e'.feed t column).verdict? e'.symbols =
        some ((restValue e r).1, (restValue e r).2.symbols) := by
  fun_induction restValue e r with
  | case1 e r r' e' remark? hfeed ih =>
    -- the token is accepted, and the line goes on
    have hup : r.line.upcoming ≠ .endOfLine := ne_endOfLine_of_next hfeed
    have hopen : (r'.noteAny remark?).line.phase.isFinished = false :=
      TokenReader.not_isFinished_noteAny_take hup remark?
    obtain ⟨accepted, e'', t, column, behind, hsettles, hpending, hverdict⟩ := ih hopen
    rw [TokenReader.noteAny_line] at hsettles
    rw [TokenReader.pending_take hr]
    exact ⟨_, e'', t, column, behind, hsettles.cons (accept?_of_feed hfeed), hpending, hverdict⟩
  | case2 e r r' x symbols remark hfeed =>
    -- the end of the line, which gives it its value
    refine ⟨[], e, r.take.1, r'.line.column, r'.line.pending, ⟨?_, rfl, ?_⟩, rfl, ?_⟩
    · exact TokenReader.pending_take hr
    · rw [← next?_feed e _ r'.line.column, hfeed]
      rfl
    · rw [hfeed]
      rfl
  | case3 e r r' i hfeed =>
    -- a token that interrupts the line
    refine ⟨[], e, r.take.1, r'.line.column, r'.line.pending, ⟨?_, rfl, ?_⟩, rfl, ?_⟩
    · exact TokenReader.pending_take hr
    · exact accept?_of_stopped hfeed
    · rw [hfeed]
      rfl

/-- **A line is evaluated up to the token that settles it**, and no further. -/
theorem restValue_of_settles {e e' : Evaluation} {r : TokenReader}
    {accepted behind : List (Token × Nat)} {t : Token} {column : Nat}
    (hr : r.line.phase.isFinished = false)
    (hsettles : Settles e r.line.pending accepted e' t column behind) :
    (restValue e r).2.reader.line.pending = behind ∧
      (e'.feed t column).verdict? e'.symbols =
        some ((restValue e r).1, (restValue e r).2.symbols) := by
  obtain ⟨accepted', e₁, t', column', behind', hsettles', hpending, hverdict⟩ :=
    restValue_settles e r hr
  obtain ⟨-, rfl, htoken, rfl⟩ := hsettles'.unique hsettles
  obtain ⟨rfl, rfl⟩ := Prod.mk.inj htoken
  exact ⟨hpending, hverdict⟩

/-- The value of a line at hand is that of its rest. -/
theorem lineValue_of_ready {s : Session} {r : TokenReader} (h : s.reader.ready = (.ok (), r)) :
    s.lineValue = restValue (Evaluation.start s.symbols) r := by
  rw [lineValue, h]

/-- **The value of a line at hand is settled by a token of the line.** -/
theorem lineValue_settles {s : Session} {r : TokenReader} (h : s.reader.ready = (.ok (), r)) :
    ∃ accepted e' t column behind,
      Settles (Evaluation.start s.symbols) r.line.pending accepted e' t column behind ∧
      s.lineValue.2.reader.line.pending = behind ∧
      (e'.feed t column).verdict? e'.symbols = some (s.lineValue.1, s.lineValue.2.symbols) := by
  rw [lineValue_of_ready h]
  exact restValue_settles _ _ (TokenReader.not_isFinished_of_ready h)

/-- **A line at hand is evaluated up to the token that settles it**, and no further. -/
theorem lineValue_of_settles {s : Session} {r : TokenReader} (h : s.reader.ready = (.ok (), r))
    {accepted behind : List (Token × Nat)} {e : Evaluation} {t : Token} {column : Nat}
    (hsettles : Settles (Evaluation.start s.symbols) r.line.pending accepted e t column behind) :
    s.lineValue.2.reader.line.pending = behind ∧
      (e.feed t column).verdict? e.symbols = some (s.lineValue.1, s.lineValue.2.symbols) := by
  rw [lineValue_of_ready h]
  exact restValue_of_settles (TokenReader.not_isFinished_of_ready h) hsettles

/-- **A line has a value** if its tokens are accepted and leave that value alone on the stack, no
text missing behind `=`. It is stored under the target of the line. -/
theorem lineValue_eq_ok_iff {s : Session} {r : TokenReader} (h : s.reader.ready = (.ok (), r))
    {x : Float} {symbols : SymbolTable} :
    s.lineValue.1 = .ok x ∧ s.lineValue.2.symbols = symbols ↔
      ∃ e, (Evaluation.start s.symbols).advance? r.line.tokens = some e ∧
        e.assigning = false ∧ e.stack = [x] ∧ symbols = e.symbols.insert e.target x := by
  have hr := TokenReader.not_isFinished_of_ready h
  obtain ⟨accepted, e', t, column', behind, hsettles, -, hverdict⟩ := lineValue_settles h
  constructor
  · rintro ⟨hx, rfl⟩
    rw [hx] at hverdict
    obtain ⟨remark, hdone⟩ := Progress.exists_done_of_verdict? hverdict
    obtain rfl := eq_endOfLine_of_done hdone
    refine ⟨e', ?_, feed_endOfLine_eq_done_iff.mp ⟨remark, hdone⟩⟩
    rw [(LineCursor.split_endOfLine hr hsettles.line_eq).2]
    exact hsettles.advance_eq
  · rintro ⟨e, hadvance, hend⟩
    -- the accepted tokens leave it to the end of the line, and a line is settled only once
    obtain ⟨before, column, hpending, htokens⟩ := LineCursor.exists_pending_eq hr
    obtain ⟨remark, hdone⟩ : ∃ remark, e.feed .endOfLine column = .done x symbols remark :=
      feed_endOfLine_eq_done_iff.mpr hend
    rw [← htokens] at hadvance
    obtain ⟨-, hverdict'⟩ := lineValue_of_settles h (hpending ▸ Settles.of_endOfLine hadvance)
    rw [hdone] at hverdict'
    obtain ⟨hx, hs⟩ := Prod.mk.inj (Option.some.inj hverdict')
    exact ⟨hx.symm, hs.symm⟩

end Session

end StackCalculator
