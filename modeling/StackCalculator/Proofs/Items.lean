import StackCalculator.Proofs.Acceptance
import StackCalculator.Proofs.Accesses

/-!
# Items of a line

A line reads as items: operands, operators, and assignments, each of which is `=` together with the
token behind it. What a line does to the symbol table depends on its items alone. A name that stands
before all operators reads its entry, and an assignment of a number writes the entry of the name
read last. The items that precede an item are its past, in which the latest item comes first.

## Main definitions

* `Item`, `items`: the items of a line
* `latestName past`: the name read last
* `latestTarget past`: the text behind the last `=`
* `Item.accesses past x`: the accesses to the symbol table that an item makes, given its past
* `accesses past`: the accesses that some items make
* `Evaluation.access?`: the access that a token makes
* `Evaluation.After`: an evaluation that has come as far as some items lead

## Main results

* `Evaluation.Accepts.symbols_eq`: an accepted token changes the symbol table by its access alone
* `Evaluation.access?_of_refused`: a token that is refused accesses nothing
* `Evaluation.After.advance`: accepted tokens lead an evaluation as far as their items
* `Evaluation.After.accesses_concat`: items access what the tokens access
-/

namespace StackCalculator

/-- **An item of a line.** An assignment has the token behind its `=`. -/
inductive Item where
  | number (text : String)
  | name (text : String)
  | negate
  | binary (op : BinaryOperator)
  | assign (literal : Token)
  | invalid (c : Char)
deriving DecidableEq

namespace Item

/-- The tokens of an item. -/
def tokens : Item → List Token
  | number text => [.number text]
  | name text => [.identifier text]
  | negate => [.operator .negate]
  | binary op => [.operator (.binary op)]
  | assign literal => [.operator .assign, literal]
  | invalid c => [.invalid c]

/-- A number or a name, which puts a value on the stack. -/
def isOperand : Item → Bool
  | number _ | name _ => true
  | _ => false

/-- An operator that combines two values. -/
def isBinary : Item → Bool
  | binary _ => true
  | _ => false

/-- An operator, which no operand may follow. -/
def isOperator : Item → Bool
  | negate | binary _ => true
  | _ => false

end Item

/-- **The items of a line.** Behind an `=` that is the last token there is the end of the line. -/
def items : List Token → List Item
  | [] => []
  | [.operator .assign] => [.assign .endOfLine]
  | .operator .assign :: literal :: ts => .assign literal :: items ts
  | .number text :: ts => .number text :: items ts
  | .identifier text :: ts => .name text :: items ts
  | .operator .negate :: ts => .negate :: items ts
  | .operator (.binary op) :: ts => .binary op :: items ts
  | .invalid c :: ts => .invalid c :: items ts
  | .endOfLine :: ts => items ts

@[simp]
theorem items_tokens (x : Item) : items x.tokens = [x] := by
  cases x <;> simp [Item.tokens, items]

theorem items_cons {t : Token} (h : t ≠ .operator .assign) (ts : List Token) :
    items (t :: ts) = items [t] ++ items ts := by
  rcases t with text | text | (op | _ | _) | c | _
  case operator.assign => exact absurd rfl h
  all_goals simp [items]

theorem items_assign (literal : Token) (ts : List Token) :
    items (.operator .assign :: literal :: ts) = .assign literal :: items ts := by
  simp [items]

/-- **Induction along the items of a line**: an `=` goes with the token behind it. -/
@[elab_as_elim]
theorem items_induction {motive : List Token → Prop} (nil : motive [])
    (single : ∀ t ts, t ≠ .operator .assign → motive ts → motive (t :: ts))
    (awaiting : motive [.operator .assign])
    (assign : ∀ literal ts, motive ts → motive (.operator .assign :: literal :: ts)) :
    ∀ ts, motive ts
  | [] => nil
  | t :: ts => by
    by_cases h : t = .operator .assign
    · subst h
      cases ts with
      | nil => exact awaiting
      | cons literal ts => exact assign literal ts (items_induction nil single awaiting assign ts)
    · exact single t ts h (items_induction nil single awaiting assign ts)

/-- The end of a line is no item. -/
theorem items_concat_endOfLine (ts : List Token) : items (ts ++ [.endOfLine]) = items ts := by
  induction ts using items_induction with
  | nil => simp [items]
  | single t ts ht ih => rw [List.cons_append, items_cons ht, ih, ← items_cons ht]
  | awaiting => simp [items]
  | assign literal ts ih => simp [items, ih]

/-! ## What items do to the symbol table -/

/-- The name that an item reads, if it is an operand that the line accepts. -/
def Item.read? (past : List Item) : Item → Option String
  | .name text => if past.any Item.isOperator ∨ text = exitName then none else some text
  | _ => none

/-- **The name read last**, empty if there is none. -/
def latestName : List Item → String
  | [] => ""
  | x :: past => (x.read? past).getD (latestName past)

/-- **The text behind the last `=`**, under which the value of the line is stored. -/
def latestTarget : List Item → String
  | [] => defaultTarget
  | .assign literal :: past => literal.text?.getD (latestTarget past)
  | _ :: past => latestTarget past

/-- **The accesses to the symbol table that an item makes.** -/
def Item.accesses (past : List Item) (x : Item) : List Access :=
  match x with
  | .name _ => (x.read? past).toList.map .read
  | .assign literal => literal.numeral?.toList.map (.write (latestName past))
  | _ => []

/-- **The accesses that some items make**, in the order in which they make them. -/
def accesses : List Item → List Access
  | [] => []
  | x :: past => accesses past ++ x.accesses past

/-- An item that accesses nothing leaves it at the accesses of its past. -/
theorem accesses_cons_of_eq_nil {x : Item} {past : List Item} (h : x.accesses past = []) :
    accesses (x :: past) = accesses past := by
  rw [accesses, h, List.append_nil]

/-- More items access more. -/
theorem accesses_isPrefix (xs past : List Item) : accesses past <+: accesses (xs ++ past) := by
  induction xs with
  | nil => exact List.prefix_rfl
  | cons x xs ih => exact ih.trans (List.prefix_append _ _)

/-- **More tokens access more**, also if the first of them is the one that an `=` waits for. -/
theorem accesses_items_isPrefix (ts us : List Token) (past : List Item) :
    accesses ((items ts).reverse ++ past) <+: accesses ((items (ts ++ us)).reverse ++ past) := by
  induction ts using items_induction generalizing past with
  | nil =>
    rw [items, List.reverse_nil, List.nil_append, List.nil_append]
    exact accesses_isPrefix _ past
  | single t ts ht ih =>
    rw [List.cons_append, items_cons ht ts, items_cons ht (ts ++ us), List.reverse_append,
      List.reverse_append, List.append_assoc, List.append_assoc]
    exact ih _
  | awaiting =>
    -- the `=` that waits gets another item when its text is known, but has accessed nothing so far
    have hnone : accesses (.assign .endOfLine :: past) = accesses past :=
      accesses_cons_of_eq_nil rfl
    rw [items, List.reverse_singleton, List.singleton_append, hnone]
    exact accesses_isPrefix _ past
  | assign literal ts ih =>
    rw [List.cons_append, List.cons_append, items_assign, items_assign, List.reverse_cons,
      List.reverse_cons, List.append_assoc, List.append_assoc]
    exact ih _

namespace Evaluation

/-! ## What tokens do to the symbol table -/

/-- **The access to the symbol table that a token makes.** Behind `=`, its number is written under
the name read last, and elsewhere a name is read if it is accepted as an operand. -/
def access? (e : Evaluation) (t : Token) : Option Access :=
  if e.assigning then t.numeral?.map (.write e.lastName)
  else match t with
    | .identifier name => if e.afterOperator ∨ name = exitName then none else some (.read name)
    | _ => none

variable {symbols : SymbolTable} {past : List Item} {e e' : Evaluation} {t : Token}

theorem access?_of_assigning (ha : e.assigning = true) (t : Token) :
    e.access? t = t.numeral?.map (.write e.lastName) :=
  if_pos ha

theorem access?_identifier (ha : e.assigning = false) (name : String) :
    e.access? (.identifier name) =
      if e.afterOperator ∨ name = exitName then none else some (.read name) :=
  if_neg (ne_true_of_eq_false ha)

theorem access?_eq_none (ha : e.assigning = false) (ht : ∀ name, t ≠ .identifier name) :
    e.access? t = none := by
  cases t with
  | identifier name => exact absurd rfl (ht name)
  | number | operator | invalid | endOfLine => exact if_neg (ne_true_of_eq_false ha)

/-- **A token that is refused accesses nothing.** -/
theorem access?_of_refused (h : e.accept? t = none) : e.access? t = none := by
  cases ha : e.assigning with
  | true =>
    have hnumeral : t.numeral? = none := by
      rw [Option.eq_none_iff_forall_ne_some]
      intro x hx
      obtain ⟨text, ht, hx⟩ := Option.bind_eq_some_iff.mp hx
      rw [(Accepts.target ha ht hx).accept?] at h
      cases h
    rw [access?_of_assigning ha, hnumeral]
    rfl
  | false =>
    cases t with
    | identifier name =>
      rw [access?_identifier ha, if_pos]
      by_contra hn
      obtain ⟨ho, hne⟩ := not_or.mp hn
      rw [(Accepts.identifier ha (eq_false_of_ne_true ho) hne).accept?] at h
      cases h
    | number | operator | invalid | endOfLine => exact access?_eq_none ha (by simp)

/-- A name that is accepted as an operand is read. -/
theorem Accepts.access?_identifier {name : String} (h : Accepts e (.identifier name) e')
    (ha : e.assigning = false) : e.access? (.identifier name) = some (.read name) := by
  cases h with
  | target ha' => rw [ha] at ha'; cases ha'
  | identifier _ ho hne =>
    rw [access?_identifier ha, if_neg (not_or.mpr ⟨ne_true_of_eq_false ho, hne⟩)]

/-- The number of a text that is accepted behind `=` is written under the name read last. -/
theorem Accepts.access?_literal (h : Accepts e t e') (ha : e.assigning = true) :
    ∃ x, t.numeral? = some x ∧ e.access? t = some (.write e.lastName x) := by
  cases h with
  | target _ ht hx =>
    have hnumeral : t.numeral? = some _ := Option.bind_eq_some_iff.mpr ⟨_, ht, hx⟩
    refine ⟨_, hnumeral, ?_⟩
    rw [access?_of_assigning ha, hnumeral]
    rfl
  | number ha' | identifier ha' | negate ha' | binary ha' | assign ha' => rw [ha] at ha'; cases ha'

/-- **An accepted token changes the symbol table by its access alone.** -/
theorem Accepts.symbols_eq (h : Accepts e t e') :
    e'.symbols = e.symbols.replay (e.access? t).toList := by
  cases ha : e.assigning with
  | true =>
    obtain ⟨x, hx, haccess⟩ := h.access?_literal ha
    rw [haccess]
    cases h with
    | target _ ht hy =>
      obtain rfl := Option.some.inj (hx.symm.trans (Option.bind_eq_some_iff.mpr ⟨_, ht, hy⟩))
      rfl
    | number ha' | identifier ha' | negate ha' | binary ha' | assign ha' =>
      rw [ha] at ha'; cases ha'
  | false =>
    cases h with
    | target ha' => rw [ha] at ha'; cases ha'
    | identifier _ ho hne =>
      rw [(Accepts.identifier ha ho hne).access?_identifier ha]
      rfl
    | number | negate | binary | assign =>
      rw [access?_eq_none ha (by simp)]
      rfl

/-! ## Tokens and items -/

/-- **An evaluation that has come as far as some items lead**, the names having the values of
`symbols` before the line. -/
structure After (symbols : SymbolTable) (past : List Item) (e : Evaluation) : Prop where
  symbols_eq : e.symbols = symbols.replay (accesses past)
  lastName_eq : e.lastName = latestName past
  target_eq : e.target = latestTarget past
  afterOperator_eq : e.afterOperator = past.any Item.isOperator

theorem after_start (symbols : SymbolTable) : After symbols [] (start symbols) :=
  ⟨rfl, rfl, rfl, rfl⟩

/-- A token accesses what its item accesses. -/
theorem After.accesses_singleton (h : After symbols past e) (ha : e.assigning = false) (t : Token) :
    accesses ((items [t]).reverse ++ past) = accesses past ++ (e.access? t).toList := by
  cases t with
  | identifier name =>
    have hitem : accesses ((items [.identifier name]).reverse ++ past) =
        accesses past ++ ((Item.name name).read? past).toList.map .read := by
      rw [items]
      rfl
    rw [hitem, access?_identifier ha, Item.read?, ← h.afterOperator_eq]
    split <;> rfl
  | operator op =>
    rw [access?_eq_none ha (by simp)]
    rcases op with op | _ | _ <;> rfl
  | number | invalid =>
    rw [access?_eq_none ha (by simp)]
    rfl
  | endOfLine =>
    rw [access?_eq_none ha (by simp)]
    exact (List.append_nil _).symm

/-- The text behind `=` accesses what its item accesses. -/
theorem After.accesses_literal (h : After symbols (.assign .endOfLine :: past) e)
    (ha : e.assigning = true) (t : Token) :
    accesses (.assign t :: past) =
      accesses (.assign .endOfLine :: past) ++ (e.access? t).toList := by
  have hname : e.lastName = latestName past := h.lastName_eq
  rw [access?_of_assigning ha, hname, accesses, accesses_cons_of_eq_nil rfl, Item.accesses]
  cases t.numeral? <;> rfl

/-- An accepted token leads as far as its item. An `=` has none before its text is known, and does
nothing to the symbol table yet. -/
theorem After.accept (h : After symbols past e) (ha : e.assigning = false)
    (haccepts : Accepts e t e') : After symbols ((items [t]).reverse ++ past) e' := by
  have hsymbols : e'.symbols = symbols.replay (accesses ((items [t]).reverse ++ past)) := by
    rw [haccepts.symbols_eq, h.symbols_eq, ← SymbolTable.replay_append, h.accesses_singleton ha]
  cases haccepts with
  | target ha' => rw [ha] at ha'; cases ha'
  | number _ ho =>
    rw [items] at hsymbols ⊢
    exact ⟨hsymbols, h.lastName_eq, h.target_eq, h.afterOperator_eq ▸ ho.symm⟩
  | @identifier text _ ho hne =>
    have hnone : past.any Item.isOperator = false := h.afterOperator_eq.symm.trans ho
    have hname : text = latestName (.name text :: past) := by
      rw [latestName, Item.read?, hnone, if_neg (not_or.mpr ⟨Bool.false_ne_true, hne⟩)]
      rfl
    rw [items] at hsymbols ⊢
    exact ⟨hsymbols, hname, h.target_eq, hnone.symm⟩
  | negate =>
    rw [items] at hsymbols ⊢
    exact ⟨hsymbols, h.lastName_eq, h.target_eq, rfl⟩
  | binary =>
    rw [items] at hsymbols ⊢
    exact ⟨hsymbols, h.lastName_eq, h.target_eq, rfl⟩
  | assign =>
    rw [items] at hsymbols ⊢
    exact ⟨hsymbols, h.lastName_eq, h.target_eq, h.afterOperator_eq⟩

/-- The text behind `=` completes its item. -/
theorem After.literal (h : After symbols (.assign .endOfLine :: past) e) (ha : e.assigning = true)
    (haccepts : Accepts e t e') : After symbols (.assign t :: past) e' := by
  have hsymbols : e'.symbols = symbols.replay (accesses (.assign t :: past)) := by
    rw [haccepts.symbols_eq, h.symbols_eq, ← SymbolTable.replay_append, ← h.accesses_literal ha]
  cases haccepts with
  | target _ ht =>
    refine ⟨hsymbols, h.lastName_eq, ?_, h.afterOperator_eq⟩
    rw [latestTarget, ht]
    rfl
  | number ha' | identifier ha' | negate ha' | binary ha' | assign ha' => rw [ha] at ha'; cases ha'

/-- Accepting a token other than `=` is a step along the items. -/
theorem After.single {ts : List Token} (h : After symbols past e) (ha : e.assigning = false)
    (ht : t ≠ .operator .assign) (hadvance : e.advance? (t :: ts) = some e') :
    ∃ e₁, After symbols ((items [t]).reverse ++ past) e₁ ∧ e₁.assigning = false ∧
      e₁.advance? ts = some e' := by
  obtain ⟨e₁, h₁, h₂⟩ := Option.bind_eq_some_iff.mp hadvance
  have haccepts := accepts_of_accept? h₁
  have ha₁ : e₁.assigning = false :=
    eq_false_of_ne_true fun htrue => ht (haccepts.assigning_iff.mp htrue)
  exact ⟨e₁, h.accept ha haccepts, ha₁, h₂⟩

/-- Accepting an `=` and the token behind it is a step along the items. -/
theorem After.assign {ts : List Token} (h : After symbols past e) (ha : e.assigning = false)
    (hadvance : e.advance? (.operator .assign :: t :: ts) = some e') :
    ∃ e₁, After symbols (.assign t :: past) e₁ ∧ e₁.assigning = false ∧
      e₁.advance? ts = some e' := by
  obtain ⟨e₁, h₁, h₁₂⟩ := Option.bind_eq_some_iff.mp hadvance
  obtain ⟨e₂, h₂, h₃⟩ := Option.bind_eq_some_iff.mp h₁₂
  have hassign := accepts_of_accept? h₁
  have hliteral := accepts_of_accept? h₂
  have ha₁ := hassign.assigning_iff.mpr rfl
  exact ⟨e₂, (h.accept ha hassign).literal ha₁ hliteral, hliteral.assigning_eq_false ha₁, h₃⟩

/-- **Accepted tokens lead an evaluation as far as their items.** -/
theorem After.advance {ts : List Token} (h : After symbols past e) (ha : e.assigning = false)
    (hadvance : e.advance? ts = some e') : After symbols ((items ts).reverse ++ past) e' := by
  induction ts using items_induction generalizing past e with
  | nil =>
    obtain rfl : e = e' := Option.some.inj hadvance
    exact h
  | single t ts ht ih =>
    obtain ⟨e₁, h₁, ha₁, hadvance⟩ := h.single ha ht hadvance
    rw [items_cons ht, List.reverse_append, List.append_assoc]
    exact ih h₁ ha₁ hadvance
  | awaiting =>
    rw [advance?_singleton] at hadvance
    exact h.accept ha (accepts_of_accept? hadvance)
  | assign literal ts ih =>
    obtain ⟨e₁, h₁, ha₁, hadvance⟩ := h.assign ha hadvance
    rw [items_assign, List.reverse_cons, List.append_assoc]
    exact ih h₁ ha₁ hadvance

/-- **Behind accepted tokens, the items access what the next token accesses.** -/
theorem After.accesses_concat {ts : List Token} (h : After symbols past e)
    (ha : e.assigning = false) (hadvance : e.advance? ts = some e') (t : Token) :
    accesses ((items (ts ++ [t])).reverse ++ past) =
      accesses ((items ts).reverse ++ past) ++ (e'.access? t).toList := by
  induction ts using items_induction generalizing past e with
  | nil =>
    obtain rfl : e = e' := Option.some.inj hadvance
    exact h.accesses_singleton ha t
  | single u ts hu ih =>
    obtain ⟨e₁, h₁, ha₁, hadvance⟩ := h.single ha hu hadvance
    rw [List.cons_append, items_cons hu (ts ++ [t]), items_cons hu ts, List.reverse_append,
      List.append_assoc, List.reverse_append, List.append_assoc]
    exact ih h₁ ha₁ hadvance
  | awaiting =>
    rw [advance?_singleton] at hadvance
    have haccepts := accepts_of_accept? hadvance
    exact (h.accept ha haccepts).accesses_literal (haccepts.assigning_iff.mpr rfl) t
  | assign literal ts ih =>
    obtain ⟨e₁, h₁, ha₁, hadvance⟩ := h.assign ha hadvance
    rw [List.cons_append, List.cons_append, items_assign, items_assign, List.reverse_cons,
      List.append_assoc, List.reverse_cons, List.append_assoc]
    exact ih h₁ ha₁ hadvance

end Evaluation

end StackCalculator
