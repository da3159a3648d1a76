import StackCalculator.Proofs.Items

/-!
# Lines with a value

Which lines have a value, and which value that is, can be read off their items. The operands come
first, and each operator uses the values from the top downwards: what it leaves is on top again, and
an operator on two values combines it with the operand below. So a line has a value if its operands
outnumber the operators on two values by one and none of them comes behind an operator, provided
that its numbers are numbers and that nothing is divided by zero.

That the counts suffice for every single operator is due to the order: behind the first operator no
more operands come, so that the number of values on the stack only decreases, down to one.

## Main definitions

* `operands symbols past`: the values of the operands before the first operator
* `remaining symbols xs`: the values that are left on the stack
* `IsExpression symbols xs`: the items of the lines that have a value
* `value symbols xs`: the value of such a line
* `Legal symbols before x`: an item that is accepted behind others

## Main results

* `Evaluation.advance?_items_iff`: a line is evaluated item by item
* `Evaluation.legal_and_reached`: what is accepted is legal, and leaves the remaining values
* `isExpression_iff`: legal items make an expression if the operands are one more
* `Session.lineValue_eq_ok_iff_isExpression`: a line has a value if and only if it is an expression
-/

namespace StackCalculator

/-! ## The values of a line -/

/-- The result of an operator, division by zero included. -/
def BinaryOperator.result (op : BinaryOperator) (left right : Float) : Float :=
  match op with
  | add => left + right
  | subtract => left - right
  | multiply => left * right
  | divide => left / right

theorem BinaryOperator.apply_eq_ok_iff {op : BinaryOperator} {left right x : Float} :
    op.apply left right = .ok x ↔
      (op = divide → (right == 0) = false) ∧ x = op.result left right := by
  by_cases hzero : op = divide ∧ (right == 0) = true
  · obtain ⟨rfl, hz⟩ := hzero
    rw [apply, if_pos hz]
    refine iff_of_false (fun h => by cases h) fun h => ?_
    rw [h.1 rfl] at hz
    cases hz
  · have hdivisor : op = divide → (right == 0) = false :=
      fun hop => eq_false_of_ne_true fun hz => hzero ⟨hop, hz⟩
    have happly : op.apply left right = .ok (op.result left right) := by
      cases op with
      | add | subtract | multiply => rfl
      | divide => rw [apply, hdivisor rfl]; rfl
    rw [happly, Except.ok.injEq, and_iff_right hdivisor]
    exact eq_comm

/-- The value of a name behind some items. -/
def valueBehind (symbols : SymbolTable) (past : List Item) (name : String) : Float :=
  (lastWritten? (accesses past) name).getD (symbols.value name)

/-- **The values of some operands**, the last one first. An assignment replaces the operand just
before it. -/
def operands (symbols : SymbolTable) : List Item → List Float
  | [] => []
  | .number text :: past => (Literal.read? text).getD 0 :: operands symbols past
  | .name name :: past => valueBehind symbols past name :: operands symbols past
  | .assign literal :: past => literal.numeral?.getD 0 :: (operands symbols past).tail
  | _ :: past => operands symbols past

/-- **What an item makes of the values left**, of which the topmost comes first. Negation and
assignment replace the topmost one, and an operator combines it with the one below. -/
def Item.reduce : List Float → Item → List Float
  | x :: below, .negate => -x :: below
  | _ :: below, .assign literal => literal.numeral?.getD 0 :: below
  | right :: left :: below, .binary op => op.result left right :: below
  | below, _ => below

/-- **The values that are left on the stack**: those of the operands, reduced from the first
operator on. -/
def remaining (symbols : SymbolTable) (xs : List Item) : List Float :=
  (xs.dropWhile fun x => !x.isOperator).foldl Item.reduce
    (operands symbols (xs.takeWhile fun x => !x.isOperator).reverse)

/-- **The value of a line.** -/
def value (symbols : SymbolTable) (xs : List Item) : Float :=
  (remaining symbols xs).headD 0

/-- **The items of a line that has a value.** -/
structure IsExpression (symbols : SymbolTable) (xs : List Item) : Prop where
  /-- The first item is an operand. -/
  head_isOperand : ∃ x ∈ xs.head?, x.isOperand = true
  /-- No operand comes behind an operator, also not with assignments in between. -/
  pairwise : xs.Pairwise fun x y => x.isOperator = true → y.isOperand = false
  /-- The operands outnumber the operators on two values by one. -/
  count_eq : xs.countP Item.isBinary + 1 = xs.countP Item.isOperand
  /-- All characters belong to tokens. -/
  invalid_notMem : ∀ c, .invalid c ∉ xs
  /-- The session does not end. -/
  exit_notMem : .name exitName ∉ xs
  /-- Numbers are numbers. -/
  isSome_read : ∀ text, .number text ∈ xs → (Literal.read? text).isSome = true
  /-- Numbers are assigned. -/
  isSome_numeral : ∀ literal, .assign literal ∈ xs → literal.numeral?.isSome = true
  /-- Nothing is divided by zero. -/
  divisor_ne : ∀ before after, xs = before ++ .binary .divide :: after →
    (value symbols before == 0) = false

section Remaining

variable {symbols : SymbolTable} {xs : List Item} {x : Item}

/-- Before the first operator, the operands are left. -/
theorem remaining_of_not_any (h : xs.any Item.isOperator = false) :
    remaining symbols xs = operands symbols xs.reverse := by
  have hall : ∀ y ∈ xs, (!y.isOperator) = true := by simpa using h
  rw [remaining, List.takeWhile_eq_self_iff.mpr hall, List.dropWhile_eq_nil_iff.mpr hall]
  rfl

/-- The operands are reduced from the first operator on. -/
theorem remaining_append_cons {front back : List Item} (hfront : front.any Item.isOperator = false)
    (hx : x.isOperator = true) : remaining symbols (front ++ x :: back) =
      (x :: back).foldl Item.reduce (operands symbols front.reverse) := by
  have hall : ∀ y ∈ front, (!y.isOperator) = true := by simpa using hfront
  rw [remaining, List.takeWhile_append_of_pos hall, List.dropWhile_append_of_pos hall,
    List.takeWhile_cons_of_neg (by simp [hx]), List.dropWhile_cons_of_neg (by simp [hx]),
    List.append_nil]

/-- From the first operator on, each item reduces the values left. -/
theorem remaining_concat_of_any (h : (xs ++ [x]).any Item.isOperator = true) :
    remaining symbols (xs ++ [x]) = Item.reduce (remaining symbols xs) x := by
  cases hfind : xs.find? Item.isOperator with
  | some y =>
    obtain ⟨hy, front, back, rfl, hfront⟩ := List.find?_eq_some_iff_append.mp hfind
    have hnone : front.any Item.isOperator = false := by simpa using hfront
    rw [List.append_assoc, List.cons_append, remaining_append_cons hnone hy,
      remaining_append_cons hnone hy, ← List.cons_append, List.foldl_append]
    rfl
  | none =>
    have hnone : xs.any Item.isOperator = false := by simpa using List.find?_eq_none.mp hfind
    have hx : x.isOperator = true := by simpa [hnone] using h
    rw [remaining_append_cons hnone hx, remaining_of_not_any hnone]
    rfl

/-- Before the first operator, an item puts its operand on top of the values left. -/
theorem remaining_concat_of_not_any (h : (xs ++ [x]).any Item.isOperator = false) :
    remaining symbols (xs ++ [x]) = operands symbols (x :: xs.reverse) := by
  rw [remaining_of_not_any h, List.reverse_append]
  rfl

/-- **An assignment replaces the topmost value**, among the operands as well as behind an
operator. -/
theorem remaining_concat_assign {literal : Token} {y : Float} {below : List Float}
    (h : remaining symbols xs = y :: below) :
    remaining symbols (xs ++ [.assign literal]) = literal.numeral?.getD 0 :: below := by
  cases hany : (xs ++ [Item.assign literal]).any Item.isOperator with
  | true =>
    rw [remaining_concat_of_any hany, h]
    rfl
  | false =>
    have hnone : xs.any Item.isOperator = false := by simpa [Item.isOperator] using hany
    rw [remaining_concat_of_not_any hany, operands, ← remaining_of_not_any hnone, h]
    rfl

end Remaining

/-! ## Item by item -/

/-- **An item that is accepted behind others.** -/
def Legal (symbols : SymbolTable) (before : List Item) : Item → Prop
  | .number text => before.any Item.isOperator = false ∧ (Literal.read? text).isSome = true
  | .name text => before.any Item.isOperator = false ∧ text ≠ exitName
  | .negate => before.countP Item.isBinary < before.countP Item.isOperand
  | .binary op => before.countP Item.isBinary + 1 < before.countP Item.isOperand ∧
      (op = .divide → (value symbols before == 0) = false)
  | .assign literal => before.countP Item.isBinary < before.countP Item.isOperand ∧
      literal.numeral?.isSome = true
  | .invalid _ => False

namespace Evaluation

/-- **A line is evaluated item by item.** Unless a text is missing behind `=`, its items have all of
its tokens. -/
theorem advance?_items_iff {e e' : Evaluation} {ts : List Token} (ha : e.assigning = false)
    (hts : .endOfLine ∉ ts) : e.advance? ((items ts).flatMap Item.tokens) = some e' ↔
      e.advance? ts = some e' ∧ e'.assigning = false := by
  induction ts using items_induction generalizing e with
  | nil =>
    rw [items, List.flatMap_nil, advance?_nil, Option.some_inj]
    exact ⟨fun h => ⟨h, h ▸ ha⟩, fun h => h.1⟩
  | single t ts ht ih =>
    obtain ⟨hne, hts⟩ := List.ne_and_not_mem_of_not_mem_cons hts
    have htokens : (items [t]).flatMap Item.tokens = [t] := by
      rcases t with text | text | (op | _ | _) | c | _
      case operator.assign => exact absurd rfl ht
      case endOfLine => exact absurd rfl hne
      all_goals simp [items, Item.tokens]
    rw [items_cons ht, List.flatMap_append, htokens, List.singleton_append, advance?_cons,
      advance?_cons]
    cases h₁ : e.accept? t with
    | none => simp
    | some e₁ =>
      have ha₁ : e₁.assigning = false :=
        eq_false_of_ne_true fun htrue => ht ((accepts_of_accept? h₁).assigning_iff.mp htrue)
      exact ih ha₁ hts
  | awaiting =>
    -- on one side the end of the line is refused as a text, on the other one is still waited for
    have htokens : (items [.operator .assign]).flatMap Item.tokens =
        [.operator .assign, .endOfLine] := by
      simp [items, Item.tokens]
    rw [htokens]
    refine iff_of_false ?_ ?_
    · intro h
      obtain ⟨e₁, -, h₁⟩ := Option.bind_eq_some_iff.mp h
      rw [advance?_singleton, accept?, next?_feed_endOfLine] at h₁
      cases h₁
    · rintro ⟨h, ha'⟩
      rw [advance?_singleton] at h
      rw [(accepts_of_accept? h).assigning_iff.mpr rfl] at ha'
      cases ha'
  | assign literal ts ih =>
    have hts' : .endOfLine ∉ ts := fun h => hts (List.mem_cons_of_mem _ (List.mem_cons_of_mem _ h))
    rw [items_assign, List.flatMap_cons, Item.tokens, List.cons_append, List.singleton_append,
      advance?_cons, advance?_cons]
    cases h₁ : e.accept? (.operator .assign) with
    | none => simp
    | some e₁ =>
      rw [Option.bind_some, Option.bind_some, advance?_cons, advance?_cons]
      cases h₂ : e₁.accept? literal with
      | none => simp
      | some e₂ =>
        have ha₁ := (accepts_of_accept? h₁).assigning_iff.mpr rfl
        exact ih ((accepts_of_accept? h₂).assigning_eq_false ha₁) hts'

section Advance

variable {e e' : Evaluation} (ha : e.assigning = false)

include ha

theorem advance?_number_iff {text : String} : e.advance? (Item.number text).tokens = some e' ↔
    e.afterOperator = false ∧ ∃ x, Literal.read? text = some x ∧ e' = e.push x := by
  rw [Item.tokens, advance?_singleton, accept?_eq_some_iff]
  constructor
  · intro h
    cases h with
    | target ha' => rw [ha] at ha'; cases ha'
    | number _ ho hx => exact ⟨ho, _, hx, rfl⟩
  · rintro ⟨ho, x, hx, rfl⟩
    exact .number ha ho hx

theorem advance?_name_iff {text : String} : e.advance? (Item.name text).tokens = some e' ↔
    e.afterOperator = false ∧ text ≠ exitName ∧ e' = e.named text := by
  rw [Item.tokens, advance?_singleton, accept?_eq_some_iff]
  constructor
  · intro h
    cases h with
    | target ha' => rw [ha] at ha'; cases ha'
    | identifier _ ho hne => exact ⟨ho, hne, rfl⟩
  · rintro ⟨ho, hne, rfl⟩
    exact .identifier ha ho hne

theorem advance?_negate_iff : e.advance? Item.negate.tokens = some e' ↔
    ∃ x below, e.stack = x :: below ∧ e' = e.replaced (-x) below := by
  rw [Item.tokens, advance?_singleton, accept?_eq_some_iff]
  constructor
  · intro h
    cases h with
    | target ha' => rw [ha] at ha'; cases ha'
    | negate _ hs => exact ⟨_, _, hs, rfl⟩
  · rintro ⟨x, below, hs, rfl⟩
    exact .negate ha hs

theorem advance?_binary_iff {op : BinaryOperator} : e.advance? (Item.binary op).tokens = some e' ↔
    ∃ right left below, e.stack = right :: left :: below ∧ (op = .divide → (right == 0) = false) ∧
      e' = e.replaced (op.result left right) below := by
  rw [Item.tokens, advance?_singleton, accept?_eq_some_iff]
  constructor
  · intro h
    cases h with
    | target ha' => rw [ha] at ha'; cases ha'
    | binary _ hs hx =>
      obtain ⟨hdivisor, rfl⟩ := BinaryOperator.apply_eq_ok_iff.mp hx
      exact ⟨_, _, _, hs, hdivisor, rfl⟩
  · rintro ⟨right, left, below, hs, hdivisor, rfl⟩
    exact .binary ha hs (BinaryOperator.apply_eq_ok_iff.mpr ⟨hdivisor, rfl⟩)

theorem advance?_assign_iff {literal : Token} : e.advance? (Item.assign literal).tokens = some e' ↔
    ∃ x below text y, e.stack = x :: below ∧ literal.text? = some text ∧
      Literal.read? text = some y ∧ e' = (e.awaiting below).assigned text y := by
  constructor
  · intro h
    obtain ⟨e₁, h₁, h₂⟩ := Option.bind_eq_some_iff.mp h
    rw [advance?_singleton] at h₂
    cases accepts_of_accept? h₁ with
    | target ha' => rw [ha] at ha'; cases ha'
    | assign _ hs =>
      cases accepts_of_accept? h₂ with
      | target _ ht hy => exact ⟨_, _, _, _, hs, ht, hy, rfl⟩
      | number ha' | identifier ha' | negate ha' | binary ha' | assign ha' => cases ha'
  · rintro ⟨x, below, text, y, hs, ht, hy, rfl⟩
    rw [Item.tokens, advance?_cons, (Accepts.assign ha hs).accept?, Option.bind_some,
      advance?_singleton]
    exact (Accepts.target rfl ht hy).accept?

theorem advance?_invalid (c : Char) : e.advance? (Item.invalid c).tokens = none := by
  rw [Item.tokens, advance?_singleton, accept?, next?_feed_invalid ha]

end Advance

/-- **An evaluation that has reached the end of some items**, with the values on the stack that they
leave. -/
structure Reached (symbols : SymbolTable) (xs : List Item) (e : Evaluation) : Prop
    extends After symbols xs.reverse e where
  assigning_eq : e.assigning = false
  stack_eq : e.stack = remaining symbols xs
  count_eq : e.stack.length + xs.countP Item.isBinary = xs.countP Item.isOperand

theorem reached_start (symbols : SymbolTable) : Reached symbols [] (start symbols) :=
  ⟨after_start symbols, rfl, rfl, rfl⟩

variable {symbols : SymbolTable} {before : List Item} {x : Item} {e e' : Evaluation}

theorem Reached.afterOperator_eq_any (h : Reached symbols before e) :
    e.afterOperator = before.any Item.isOperator := by
  rw [h.afterOperator_eq, List.any_reverse]

/-- **What is accepted is legal, and leaves the remaining values.** -/
theorem legal_and_reached (h : Reached symbols before e)
    (hadvance : e.advance? x.tokens = some e') :
    Legal symbols before x ∧ Reached symbols (before ++ [x]) e' := by
  have hafter : After symbols (before ++ [x]).reverse e' := by
    simpa using h.toAfter.advance h.assigning_eq hadvance
  have ha := h.assigning_eq
  have hcount := h.count_eq
  cases x with
  | number text =>
    obtain ⟨ho, y, hy, rfl⟩ := (advance?_number_iff ha).mp hadvance
    have hnone := h.afterOperator_eq_any.symm.trans ho
    refine ⟨⟨hnone, Option.isSome_iff_exists.mpr ⟨y, hy⟩⟩, hafter, ha, ?_, ?_⟩
    · rw [remaining_concat_of_not_any (by simpa [Item.isOperator] using hnone), operands, hy,
        ← remaining_of_not_any hnone, ← h.stack_eq]
      rfl
    · simp [push, Item.isBinary, Item.isOperand]
      omega
  | name text =>
    obtain ⟨ho, hne, rfl⟩ := (advance?_name_iff ha).mp hadvance
    have hnone := h.afterOperator_eq_any.symm.trans ho
    refine ⟨⟨hnone, hne⟩, hafter, ha, ?_, ?_⟩
    · rw [remaining_concat_of_not_any (by simpa [Item.isOperator] using hnone), operands,
        valueBehind, ← SymbolTable.value_replay, ← h.symbols_eq, ← remaining_of_not_any hnone,
        ← h.stack_eq]
      rfl
    · simp [named, push, Item.isBinary, Item.isOperand]
      omega
  | negate =>
    obtain ⟨y, below, hs, rfl⟩ := (advance?_negate_iff ha).mp hadvance
    rw [hs, List.length_cons] at hcount
    refine ⟨by rw [Legal]; omega, hafter, ha, ?_, ?_⟩
    · rw [remaining_concat_of_any (by simp [Item.isOperator]), ← h.stack_eq, hs]
      rfl
    · simp [replaced, Item.isBinary, Item.isOperand]
      omega
  | binary op =>
    obtain ⟨right, left, below, hs, hdivisor, rfl⟩ := (advance?_binary_iff ha).mp hadvance
    rw [hs, List.length_cons, List.length_cons] at hcount
    refine ⟨⟨by omega, ?_⟩, hafter, ha, ?_, ?_⟩
    · rw [value, ← h.stack_eq, hs]
      exact hdivisor
    · rw [remaining_concat_of_any (by simp [Item.isOperator]), ← h.stack_eq, hs]
      rfl
    · simp [replaced, Item.isBinary, Item.isOperand]
      omega
  | assign literal =>
    obtain ⟨y, below, text, z, hs, ht, hz, rfl⟩ := (advance?_assign_iff ha).mp hadvance
    rw [hs, List.length_cons] at hcount
    have hnumeral : literal.numeral? = some z := Option.bind_eq_some_iff.mpr ⟨text, ht, hz⟩
    refine ⟨⟨by omega, Option.isSome_iff_exists.mpr ⟨z, hnumeral⟩⟩, hafter, rfl, ?_, ?_⟩
    · rw [remaining_concat_assign (h.stack_eq.symm.trans hs), hnumeral]
      rfl
    · simp [assigned, awaiting, Item.isBinary, Item.isOperand]
      omega
  | invalid c =>
    rw [advance?_invalid ha] at hadvance
    cases hadvance

/-- What is legal is accepted. -/
theorem exists_advance_of_legal (h : Reached symbols before e) (hlegal : Legal symbols before x) :
    ∃ e', e.advance? x.tokens = some e' := by
  have ha := h.assigning_eq
  have hcount := h.count_eq
  cases x with
  | number text =>
    obtain ⟨hnone, hsome⟩ := hlegal
    obtain ⟨y, hy⟩ := Option.isSome_iff_exists.mp hsome
    exact ⟨_, (advance?_number_iff ha).mpr ⟨h.afterOperator_eq_any.trans hnone, y, hy, rfl⟩⟩
  | name text =>
    obtain ⟨hnone, hne⟩ := hlegal
    exact ⟨_, (advance?_name_iff ha).mpr ⟨h.afterOperator_eq_any.trans hnone, hne, rfl⟩⟩
  | negate =>
    rw [Legal] at hlegal
    rcases hs : e.stack with - | ⟨y, below⟩
    · rw [hs, List.length_nil] at hcount
      omega
    · exact ⟨_, (advance?_negate_iff ha).mpr ⟨y, below, hs, rfl⟩⟩
  | binary op =>
    obtain ⟨hlt, hdivisor⟩ := hlegal
    rcases hs : e.stack with - | ⟨right, - | ⟨left, below⟩⟩
    · rw [hs, List.length_nil] at hcount
      omega
    · rw [hs, List.length_singleton] at hcount
      omega
    · rw [value, ← h.stack_eq, hs] at hdivisor
      exact ⟨_, (advance?_binary_iff ha).mpr ⟨right, left, below, hs, hdivisor, rfl⟩⟩
  | assign literal =>
    obtain ⟨hlt, hsome⟩ := hlegal
    obtain ⟨y, hy⟩ := Option.isSome_iff_exists.mp hsome
    obtain ⟨text, ht, hy⟩ := Option.bind_eq_some_iff.mp hy
    rcases hs : e.stack with - | ⟨z, below⟩
    · rw [hs, List.length_nil] at hcount
      omega
    · exact ⟨_, (advance?_assign_iff ha).mpr ⟨z, below, text, y, hs, ht, hy, rfl⟩⟩
  | invalid c => exact hlegal.elim

end Evaluation

/-- Items of which each is accepted behind those before it. -/
def AllLegal (symbols : SymbolTable) (xs : List Item) : Prop :=
  ∀ before x after, xs = before ++ x :: after → Legal symbols before x

theorem allLegal_nil (symbols : SymbolTable) : AllLegal symbols [] :=
  fun _ _ _ h => by simp at h

theorem allLegal_concat_iff {symbols : SymbolTable} {xs : List Item} {x : Item} :
    AllLegal symbols (xs ++ [x]) ↔ AllLegal symbols xs ∧ Legal symbols xs x := by
  constructor
  · intro h
    refine ⟨fun before y after hxs => h before y (after ++ [x]) ?_, h xs x [] rfl⟩
    rw [hxs, List.append_assoc, List.cons_append]
  · rintro ⟨h, hx⟩ before y after hxs
    rcases concat_eq_append_cons_iff.mp hxs with ⟨-, rfl, rfl⟩ | ⟨more, -, hmore⟩
    · exact hx
    · exact h before y more hmore

namespace Evaluation

variable {symbols : SymbolTable} {xs : List Item} {e : Evaluation}

/-- **Accepted items are legal one and all.** -/
theorem allLegal_and_reached
    (hadvance : (start symbols).advance? (xs.flatMap Item.tokens) = some e) :
    AllLegal symbols xs ∧ Reached symbols xs e := by
  induction xs using List.reverseRecOn generalizing e with
  | nil =>
    obtain rfl : start symbols = e := Option.some.inj hadvance
    exact ⟨allLegal_nil symbols, reached_start symbols⟩
  | append_singleton xs x ih =>
    rw [List.flatMap_append, List.flatMap_singleton, advance?_append] at hadvance
    obtain ⟨e₁, h₁, h₂⟩ := Option.bind_eq_some_iff.mp hadvance
    obtain ⟨hall, hreached⟩ := ih h₁
    obtain ⟨hlegal, hreached⟩ := legal_and_reached hreached h₂
    exact ⟨allLegal_concat_iff.mpr ⟨hall, hlegal⟩, hreached⟩

/-- **Legal items are accepted one and all.** -/
theorem exists_advance_of_allLegal (h : AllLegal symbols xs) :
    ∃ e, (start symbols).advance? (xs.flatMap Item.tokens) = some e := by
  induction xs using List.reverseRecOn with
  | nil => exact ⟨_, rfl⟩
  | append_singleton xs x ih =>
    obtain ⟨hall, hlegal⟩ := allLegal_concat_iff.mp h
    obtain ⟨e₁, h₁⟩ := ih hall
    obtain ⟨e₂, h₂⟩ := exists_advance_of_legal (allLegal_and_reached h₁).2 hlegal
    refine ⟨e₂, ?_⟩
    rw [List.flatMap_append, List.flatMap_singleton, advance?_append, h₁]
    exact h₂

end Evaluation

/-! ## Expressions -/

section Expressions

variable {symbols : SymbolTable} {xs before after : List Item} {x : Item}

theorem Legal.any_eq_false (h : Legal symbols before x) (hx : x.isOperand = true) :
    before.any Item.isOperator = false := by
  cases x with
  | number | name => exact h.1
  | negate | binary | assign | invalid => cases hx

/-- The first of legal items is an operand. -/
theorem AllLegal.head_isOperand {rest : List Item} (h : AllLegal symbols (x :: rest)) :
    x.isOperand = true := by
  have hlegal := h [] x rest rfl
  cases x with
  | number | name => rfl
  | negate => simp [Legal] at hlegal
  | binary | assign => simp [Legal] at hlegal
  | invalid => exact hlegal.elim

/-- No legal operand comes behind an operator. -/
theorem AllLegal.pairwise (h : AllLegal symbols xs) :
    xs.Pairwise fun x y => x.isOperator = true → y.isOperand = false := by
  induction xs using List.reverseRecOn with
  | nil => exact .nil
  | append_singleton xs x ih =>
    obtain ⟨hall, hlegal⟩ := allLegal_concat_iff.mp h
    refine List.pairwise_append.mpr ⟨ih hall, List.pairwise_singleton _ _, fun y hy z hz hop => ?_⟩
    obtain rfl := List.mem_singleton.mp hz
    -- as an operand, the last item would have no operator before it
    refine eq_false_of_ne_true fun hoperand => ?_
    exact ne_true_of_eq_false (hlegal.any_eq_false hoperand) (List.any_eq_true.mpr ⟨y, hy, hop⟩)

theorem AllLegal.exists_legal (h : AllLegal symbols xs) (hx : x ∈ xs) :
    ∃ before, Legal symbols before x := by
  obtain ⟨before, after, hxs⟩ := List.append_of_mem hx
  exact ⟨before, h before x after hxs⟩

/-- An expression has no more operands from its first operator on. -/
theorem IsExpression.countP_isOperand_eq (h : IsExpression symbols xs)
    (hxs : xs = before ++ x :: after) (hx : x.isOperand = false)
    (hany : (before ++ [x]).any Item.isOperator = true) :
    xs.countP Item.isOperand = before.countP Item.isOperand := by
  have hpairwise := h.pairwise
  rw [hxs, List.append_cons, List.pairwise_append] at hpairwise
  obtain ⟨y, hy, hop⟩ := List.any_eq_true.mp hany
  have hafter : after.countP Item.isOperand = 0 := by
    refine List.countP_eq_zero.mpr fun z hz => ?_
    exact ne_true_of_eq_false (hpairwise.2.2 y hy z hz hop)
  rw [hxs, List.countP_append, List.countP_cons, hafter, hx]
  rfl

/-- **The items of an expression are legal.** Its counts suffice for each operator, since all
operands come before it. -/
theorem IsExpression.allLegal (h : IsExpression symbols xs) : AllLegal symbols xs := by
  intro before x after hxs
  have hmem : x ∈ xs := by simp [hxs]
  have hcount := h.count_eq
  have hbinary :
      before.countP Item.isBinary + (if x.isBinary then 1 else 0) ≤ xs.countP Item.isBinary := by
    rw [hxs, List.countP_append, List.countP_cons]
    omega
  have hnone (hx : x.isOperand = true) : before.any Item.isOperator = false := by
    have hpairwise := h.pairwise
    rw [hxs, List.pairwise_append] at hpairwise
    refine List.any_eq_false.mpr fun y hy hop => ?_
    rw [hpairwise.2.2 y hy x List.mem_cons_self hop] at hx
    cases hx
  cases x with
  | number text => exact ⟨hnone rfl, h.isSome_read text hmem⟩
  | name text =>
    refine ⟨hnone rfl, ?_⟩
    rintro rfl
    exact h.exit_notMem hmem
  | negate =>
    have hoperand := h.countP_isOperand_eq hxs rfl (by simp [Item.isOperator])
    rw [Legal]
    omega
  | binary op =>
    have hoperand := h.countP_isOperand_eq hxs rfl (by simp [Item.isOperator])
    rw [Item.isBinary, if_pos rfl] at hbinary
    refine ⟨by omega, ?_⟩
    rintro rfl
    exact h.divisor_ne before after hxs
  | assign literal =>
    refine ⟨?_, h.isSome_numeral literal hmem⟩
    cases hany : before.any Item.isOperator with
    | true =>
      have hoperand := h.countP_isOperand_eq hxs rfl (by rw [List.any_append, hany, Bool.true_or])
      omega
    | false =>
      -- before the first operator, the first item is an operand and nothing has used it up
      have hzero : before.countP Item.isBinary = 0 := by
        refine List.countP_eq_zero.mpr fun y hy hb => ?_
        have hop := List.any_eq_false.mp hany y hy
        cases y with
        | binary => exact hop rfl
        | number | name | negate | assign | invalid => cases hb
      obtain ⟨y, hy, hoperand⟩ := h.head_isOperand
      rw [hzero, List.countP_pos_iff]
      rcases before with - | ⟨z, before⟩
      · rw [hxs] at hy
        obtain rfl := Option.some.inj hy
        cases hoperand
      · rw [hxs] at hy
        obtain rfl := Option.some.inj hy
        exact ⟨z, List.mem_cons_self, hoperand⟩
  | invalid c => exact h.invalid_notMem c hmem

/-- **Legal items make an expression** if the operands are one more than the operators on two
values. -/
theorem isExpression_iff : IsExpression symbols xs ↔
    AllLegal symbols xs ∧ xs.countP Item.isBinary + 1 = xs.countP Item.isOperand := by
  refine ⟨fun h => ⟨h.allLegal, h.count_eq⟩, fun ⟨h, hcount⟩ => ?_⟩
  refine ⟨?_, h.pairwise, hcount, ?_, ?_, ?_, ?_, ?_⟩
  · cases xs with
    | nil => cases hcount
    | cons x rest => exact ⟨x, rfl, h.head_isOperand⟩
  · intro c hc
    obtain ⟨before, hlegal⟩ := h.exists_legal hc
    exact hlegal
  · intro hexit
    obtain ⟨before, hlegal⟩ := h.exists_legal hexit
    exact hlegal.2 rfl
  · intro text htext
    obtain ⟨before, hlegal⟩ := h.exists_legal htext
    exact hlegal.2
  · intro literal hliteral
    obtain ⟨before, hlegal⟩ := h.exists_legal hliteral
    exact hlegal.2
  · intro before after hxs
    exact (h before _ after hxs).2 rfl

end Expressions

namespace Session

/-- **A line has a value if and only if its items are an expression**, and its value is the one that
is left when the operators have used up the operands from the top downwards. -/
theorem lineValue_eq_ok_iff_isExpression {s : Session} {r : TokenReader}
    (h : s.reader.ready = (.ok (), r)) {x : Float} :
    s.lineValue.1 = .ok x ↔
      IsExpression s.symbols (items r.line.tokens) ∧ x = value s.symbols (items r.line.tokens) := by
  have hend := LineCursor.endOfLine_notMem_tokens (TokenReader.not_isFinished_of_ready h)
  rw [isExpression_iff]
  constructor
  · intro hx
    obtain ⟨e, hadvance, ha, hs, -⟩ := (lineValue_eq_ok_iff h).mp ⟨hx, rfl⟩
    obtain ⟨hall, hreached⟩ := Evaluation.allLegal_and_reached
      ((Evaluation.advance?_items_iff rfl hend).mpr ⟨hadvance, ha⟩)
    have hcount := hreached.count_eq
    rw [hs, List.length_singleton] at hcount
    refine ⟨⟨hall, by omega⟩, ?_⟩
    rw [value, ← hreached.stack_eq, hs]
    rfl
  · rintro ⟨⟨hall, hcount⟩, rfl⟩
    obtain ⟨e, hadvance⟩ := Evaluation.exists_advance_of_allLegal hall
    have hreached := (Evaluation.allLegal_and_reached hadvance).2
    obtain ⟨hadvance, ha⟩ := (Evaluation.advance?_items_iff rfl hend).mp hadvance
    have hlength : e.stack.length = 1 := by
      have := hreached.count_eq
      omega
    obtain ⟨x, hs⟩ := List.length_eq_one_iff.mp hlength
    have hvalue : value s.symbols (items r.line.tokens) = x := by
      rw [value, ← hreached.stack_eq, hs]
      rfl
    rw [hvalue]
    exact ((lineValue_eq_ok_iff h).mpr ⟨e, hadvance, ha, hs, rfl⟩).1

/-- In the line `9 x = 2 y ~ - *`, the operand `x` is replaced by two and `y` is zero. -/
theorem lineValue_product :
    let s : Session := ⟨.holding "9 x = 2 y ~ - *".toList, ∅⟩
    s.reader.ready = (.ok (), s.reader) ∧
      s.lineValue.1 = .ok ((Literal.read? "9").getD 0 * ((Literal.read? "2").getD 0 - -0)) := by
  intro s
  have hready : s.reader.ready = (.ok (), s.reader) := TokenReader.ready_holding _
  have hitems : items s.reader.line.tokens = [.number "9", .name "x", .assign (.number "2"),
      .name "y", .negate, .binary .subtract, .binary .multiply] := by
    decide +kernel
  refine ⟨hready, (lineValue_eq_ok_iff_isExpression hready).mpr ?_⟩
  rw [hitems]
  refine ⟨⟨⟨_, rfl, rfl⟩, by decide, by decide, by simp, by decide, ?_, ?_, ?_⟩, rfl⟩
  · intro text htext
    obtain rfl : text = "9" := by simpa using htext
    decide
  · intro literal hliteral
    obtain rfl : literal = .number "2" := by simpa using hliteral
    decide
  · intro before after hxs
    have hmem : Item.binary .divide ∈ before ++ .binary .divide :: after := by simp
    rw [← hxs] at hmem
    exact absurd hmem (by decide)

end Session

end StackCalculator
