import StackCalculator.Proofs.Numerals
import StackCalculator.Proofs.Terminators

/-!
# Keys of the table

A name that is read becomes a key, and so does the target that the value of a line is stored under.
Both are names, except through assignments: the name read last is empty if the line has read none,
and the text behind `=` may be that of a number. So a key that is no name tells of an assignment,
and a session that is never given an `=` has names as its keys alone, and stores the values of its
lines under `it`.

## Main definitions

* `IsName`, `IsNumeralText`: the texts that are keys
* `Evaluation.Completes`, `Session.CompletesAssignment`: an assignment of a text to a name
* `Session.lastValue?`: the value of the last line that had one

## Main results

* `Evaluation.keyed_of_advance?`: where the keys come from in the middle of a line
* `Session.mem_lineValue`: where they come from in a line
* `Session.exists_step_of_mem`: a key has come at one of the steps
* `Session.keys_after`: the keys of every session, after any steps
-/

namespace StackCalculator

/-! ## The texts that are keys -/

/-- **A name that can be read**: any but `exit`. -/
def IsName (key : String) : Prop :=
  (Token.identifier key).Shaped ∧ key ≠ exitName
deriving Decidable

/-- **The text of a number** with at most one point. -/
def IsNumeralText (key : String) : Prop :=
  (Token.number key).Shaped ∧ key.toList.count '.' ≤ 1

theorem isName_defaultTarget : IsName defaultTarget := by
  decide

theorem not_isName_empty : ¬ IsName "" := by
  decide

theorem IsNumeralText.not_isName {key : String} (h : IsNumeralText key) : ¬ IsName key :=
  fun hname => Token.not_shaped_identifier_of_number h.1 hname.1

/-- **A literal is the text of a number, or a name**, and then none that has a meaning of its own
but as a number. -/
theorem Token.IsNumeral.text {t : Token} {text : String} (h : t.IsNumeral) (ht : t.Shaped)
    (htext : t.text? = some text) : IsName text ∨ IsNumeralText text := by
  cases t with
  | number text' =>
    obtain rfl := Option.some.inj htext
    exact .inr ⟨ht, h⟩
  | identifier text' =>
    obtain rfl := Option.some.inj htext
    refine .inl ⟨ht, ?_⟩
    rintro rfl
    exact absurd h (by show ¬ SpellsNumber exitName; decide)
  | operator | invalid | endOfLine => cases htext

/-! ## Assignments -/

namespace Evaluation

/-- **Tokens that complete an assignment** of a text to a name, the names having the values of
`symbols` before them: some are accepted up to an `=`, and the text of the next one is a literal. -/
def Completes (symbols : SymbolTable) (ts : List Token) (name text : String) : Prop :=
  ∃ before t behind e, ts = before ++ t :: behind ∧ (start symbols).advance? before = some e ∧
    e.assigning = true ∧ e.lastName = name ∧ t.text? = some text ∧ ∃ x, Literal.read? text = some x

variable {symbols : SymbolTable} {ts : List Token} {e e' : Evaluation} {name text key : String}

theorem Completes.append (h : Completes symbols ts name text) (more : List Token) :
    Completes symbols (ts ++ more) name text := by
  obtain ⟨before, t, behind, e, rfl, hcompletes⟩ := h
  exact ⟨before, t, behind ++ more, e, by simp, hcompletes⟩

/-- The text of an assignment is a literal. -/
theorem Completes.text_cases (h : Completes symbols ts name text) (hts : ∀ t ∈ ts, t.Shaped) :
    IsName text ∨ IsNumeralText text := by
  obtain ⟨before, t, behind, e, rfl, -, -, -, htext, x, hx⟩ := h
  have ht : t.Shaped := hts t (by simp)
  have hnumeral : t.numeral? = some x := Option.bind_eq_some_iff.mpr ⟨text, htext, hx⟩
  exact ((Token.isSome_numeral?_iff ht).mp (by rw [hnumeral]; rfl)).text ht htext

/-- An assignment stands behind an `=`. -/
theorem Completes.assign_mem (h : Completes symbols ts name text) : .operator .assign ∈ ts := by
  obtain ⟨before, t, behind, e, rfl, hadvance, ha, -⟩ := h
  have hlast := (assigning_of_advance? rfl hadvance).mp ha
  exact List.mem_append_left _ (List.mem_of_getLast? hlast)

/-- **Where keys come from in the middle of a line**, whose tokens so far are `ts`. -/
structure Keyed (symbols : SymbolTable) (ts : List Token) (e : Evaluation) : Prop where
  lastName : e.lastName = "" ∨ IsName e.lastName
  target : e.target = defaultTarget ∨ ∃ name, Completes symbols ts name e.target
  keys : ∀ key ∈ e.symbols, key ∈ symbols ∨ IsName key ∨ ∃ text, Completes symbols ts key text

theorem keyed_start (symbols : SymbolTable) : Keyed symbols [] (start symbols) :=
  ⟨.inl rfl, .inl rfl, fun _ => .inl⟩

/-- What holds of the keys before a token holds behind it, if the token leaves them and the target
alone. -/
theorem Keyed.concat (h : Keyed symbols ts e) (t : Token) : Keyed symbols (ts ++ [t]) e where
  lastName := h.lastName
  target := h.target.imp_right fun hassigned => hassigned.imp fun _ hname => hname.append [t]
  keys key hkey := (h.keys key hkey).imp_right fun hnew =>
    hnew.imp_right fun hassigned => hassigned.imp fun _ htext => htext.append [t]

/-- **One token more.** -/
theorem Keyed.accept (h : Keyed symbols ts e) (hadvance : (start symbols).advance? ts = some e)
    {t : Token} (ht : t.Shaped) (haccepts : Accepts e t e') : Keyed symbols (ts ++ [t]) e' := by
  obtain ⟨hlast, htarget, hkeys⟩ := h.concat t
  cases haccepts with
  | @target _ text x ha htext hx =>
    have hcompletes : Completes symbols (ts ++ [t]) e.lastName text :=
      ⟨ts, t, [], e, rfl, hadvance, ha, rfl, htext, x, hx⟩
    refine ⟨hlast, .inr ⟨e.lastName, hcompletes⟩, fun key hkey => ?_⟩
    rcases (SymbolTable.mem_apply_iff (a := .write e.lastName x)).mp hkey with rfl | hkey
    · exact .inr (.inr ⟨text, hcompletes⟩)
    · exact hkeys key hkey
  | @identifier name ha ho hne =>
    refine ⟨.inr ⟨ht, hne⟩, htarget, fun key hkey => ?_⟩
    rcases (SymbolTable.mem_apply_iff (a := .read name)).mp hkey with rfl | hkey
    · exact .inr (.inl ⟨ht, hne⟩)
    · exact hkeys key hkey
  | number | negate | binary | assign => exact ⟨hlast, htarget, hkeys⟩

/-- **Where keys come from** behind accepted tokens. -/
theorem keyed_of_advance? (h : (start symbols).advance? ts = some e) (hts : ∀ t ∈ ts, t.Shaped) :
    Keyed symbols ts e := by
  induction ts using List.reverseRecOn generalizing e with
  | nil =>
    obtain rfl := Option.some.inj h
    exact keyed_start symbols
  | append_singleton ts t ih =>
    have hsplit := h
    rw [advance?_append] at hsplit
    obtain ⟨e₁, h₁, h₂⟩ := Option.bind_eq_some_iff.mp hsplit
    rw [advance?_singleton] at h₂
    obtain ⟨hbefore, ht⟩ := List.forall_mem_append.mp hts
    exact (ih h₁ hbefore).accept h₁ (ht t (by simp)) (accepts_of_accept? h₂)

/-- The name of an assignment is the one read last, or empty. -/
theorem Completes.name_cases (h : Completes symbols ts name text) (hts : ∀ t ∈ ts, t.Shaped) :
    name = "" ∨ IsName name := by
  obtain ⟨before, t, behind, e, rfl, hadvance, -, rfl, -⟩ := h
  exact (keyed_of_advance? hadvance (List.forall_mem_append.mp hts).1).lastName

/-- **Without an `=`, tokens only read.** What has a value keeps it, and the target stays. -/
theorem advance?_of_assign_notMem {e₀ : Evaluation} (ha : e₀.assigning = false)
    (h : e₀.advance? ts = some e) (hno : .operator .assign ∉ ts) :
    e.target = e₀.target ∧
      ∀ (key : String) (x : Float), e₀.symbols[key]? = some x → e.symbols[key]? = some x := by
  induction ts generalizing e₀ with
  | nil =>
    obtain rfl := Option.some.inj h
    exact ⟨rfl, fun _ _ hx => hx⟩
  | cons t ts ih =>
    obtain ⟨e₁, h₁, h₂⟩ := Option.bind_eq_some_iff.mp h
    obtain ⟨ht, hno⟩ := not_or.mp (mt List.mem_cons.mpr hno)
    have haccepts := accepts_of_accept? h₁
    have ha₁ : e₁.assigning = false :=
      eq_false_of_ne_true fun htrue => ht (haccepts.assigning_iff.mp htrue).symm
    have hfirst : e₁.target = e₀.target ∧
        ∀ (key : String) (x : Float), e₀.symbols[key]? = some x → e₁.symbols[key]? = some x := by
      cases haccepts with
      | target ha' => rw [ha] at ha'; cases ha'
      | identifier =>
        refine ⟨rfl, fun key x hx => ?_⟩
        show (e₀.symbols.read _)[key]? = some x
        rw [SymbolTable.getElem?_read]
        split
        · next hname => rw [SymbolTable.value, hname, hx]; rfl
        · exact hx
      | number | negate | binary | assign => exact ⟨rfl, fun _ _ hx => hx⟩
    obtain ⟨htarget, hkept⟩ := ih ha₁ h₂ hno
    exact ⟨htarget.trans hfirst.1, fun key x hx => hkept key x (hfirst.2 key x hx)⟩

end Evaluation

namespace Session

open Evaluation

/-! ## One line -/

/-- **A line that completes an assignment** of a text to a name. -/
def CompletesAssignment (s : Session) (name text : String) : Prop :=
  ∃ r, s.reader.ready = (.ok (), r) ∧ Completes s.symbols r.line.tokens name text

variable {s : Session} {name text key : String}

theorem CompletesAssignment.name_cases (h : s.CompletesAssignment name text) :
    name = "" ∨ IsName name := by
  obtain ⟨r, hready, hcompletes⟩ := h
  exact hcompletes.name_cases (shaped_of_mem_tokens (TokenReader.not_isFinished_of_ready hready))

theorem CompletesAssignment.text_cases (h : s.CompletesAssignment name text) :
    IsName text ∨ IsNumeralText text := by
  obtain ⟨r, hready, hcompletes⟩ := h
  exact hcompletes.text_cases (shaped_of_mem_tokens (TokenReader.not_isFinished_of_ready hready))

/-- **Where the keys come from**: they are keys already, names that are read, names that are
assigned to, and the text that was assigned, if the line has a value. -/
theorem mem_lineValue (h : key ∈ s.lineValue.2.symbols) :
    key ∈ s.symbols ∨ IsName key ∨ (∃ text, s.CompletesAssignment key text) ∨
      (∃ x, s.lineValue.1 = .ok x) ∧ ∃ name, s.CompletesAssignment name key := by
  rcases hready : s.reader.ready with ⟨i | u, r⟩
  · rw [lineValue, hready] at h
    exact .inl h
  · obtain ⟨accepted, e, t, column, behind, hsettles, -, hverdict⟩ := lineValue_settles hready
    have hopen := TokenReader.not_isFinished_of_ready hready
    obtain ⟨more, htokens⟩ := LineCursor.isPrefix_tokens hopen hsettles.line_eq
    have hshaped := shaped_of_mem_tokens hopen
    rw [← htokens] at hshaped
    have hkeyed := keyed_of_advance? hsettles.advance_eq (List.forall_mem_append.mp hshaped).1
    have hline : ∀ {name text}, Completes s.symbols (accepted.map Prod.fst) name text →
        s.CompletesAssignment name text :=
        fun hcompletes => ⟨r, hready, htokens ▸ hcompletes.append more⟩
    rw [replay_storing_of_verdict? hverdict] at h
    rcases SymbolTable.mem_replay_iff.mp h with ⟨a, ha, rfl⟩ | h
    · -- the target, which is stored under if the line has a value
      cases hvalue : s.lineValue.1 with
      | error i => rw [hvalue] at ha; cases ha
      | ok x =>
        rw [hvalue] at ha
        obtain rfl := List.mem_singleton.mp ha
        rcases hkeyed.target with htarget | ⟨name, hcompletes⟩
        · exact .inr (.inl (htarget ▸ isName_defaultTarget))
        · exact .inr (.inr (.inr ⟨⟨x, rfl⟩, name, hline hcompletes⟩))
    · rcases hkeyed.keys key h with hold | hread | ⟨text, hcompletes⟩
      · exact .inl hold
      · exact .inr (.inl hread)
      · exact .inr (.inr (.inl ⟨text, hline hcompletes⟩))

/-- **Without an `=`, a line stores its value under `it`**, or leaves what has a value as it is. -/
theorem lineValue_of_assign_notMem
    (hno : ∀ r, s.reader.ready = (.ok (), r) → .operator .assign ∉ r.line.tokens) :
    (∀ x, s.lineValue.1 = .ok x → s.lineValue.2.symbols[defaultTarget]? = some x) ∧
      ∀ i, s.lineValue.1 = .error i →
        ∀ (key : String) (x : Float), s.symbols[key]? = some x →
          s.lineValue.2.symbols[key]? = some x := by
  rcases hready : s.reader.ready with ⟨i | u, r⟩
  · rw [lineValue, hready]
    exact ⟨fun x hx => (by cases hx), fun _ _ key x hx => hx⟩
  · obtain ⟨accepted, e, t, column, behind, hsettles, -, hverdict⟩ := lineValue_settles hready
    have hbegins := LineCursor.isPrefix_tokens (TokenReader.not_isFinished_of_ready hready)
      hsettles.line_eq
    have hnone : .operator .assign ∉ accepted.map Prod.fst := fun hmem =>
      hno r hready (hbegins.subset hmem)
    obtain ⟨htarget, hkept⟩ := advance?_of_assign_notMem rfl hsettles.advance_eq hnone
    have hstored := replay_storing_of_verdict? hverdict
    refine ⟨fun x hx => ?_, fun i hi key x hx => ?_⟩
    · rw [hstored, hx, htarget]
      exact Std.ExtTreeMap.getElem?_insert_self
    · rw [hstored, hi]
      exact hkept key x hx

/-! ## All lines -/

/-- **A key has come at one of the steps** if it was not there before them. -/
theorem exists_step_of_mem {n : Nat} (hnew : key ∉ s.symbols) (h : key ∈ (s.after n).symbols) :
    ∃ m < n, key ∉ (s.after m).symbols ∧ key ∈ (s.after (m + 1)).symbols := by
  induction n with
  | zero => exact absurd h hnew
  | succ n ih =>
    by_cases hn : key ∈ (s.after n).symbols
    · obtain ⟨m, hm, hcame⟩ := ih hn
      exact ⟨m, Nat.lt_succ_of_lt hm, hcame⟩
    · exact ⟨n, Nat.lt_succ_self n, hn, h⟩

/-- The tokens of a line at hand are tokens of a line of the input. -/
theorem exists_line_of_ready {prompt : String} {input : Input} {output : Output} {n : Nat}
    {r : TokenReader} (h : ((new prompt input output).after n).reader.ready = (.ok (), r)) :
    ∃ text ∈ input.lines, ∀ t ∈ r.line.tokens, t ∈ textTokens text := by
  have hleads := (leads_trace (new prompt input output) n).append (TokenReader.leads_ready _)
  rw [h] at hleads
  have hopen := TokenReader.not_isFinished_of_ready h
  rcases hleads.pending rfl with hnone | ⟨text, since, ⟨earlier, later, hevents, -⟩, htokens⟩
  · exact absurd hnone (LineCursor.pending_ne_nil hopen)
  · refine ⟨text, ?_, fun t ht => ?_⟩
    · have hlines : input.lines = _ := hleads.lines_eq.symm
      rw [hlines, hevents]
      exact List.mem_append_left _ (List.mem_filterMap.mpr ⟨.read (.line text), by simp, rfl⟩)
    · have hall := congrArg (List.map Prod.fst) htokens
      have hpending : r.streams.pending.map Prod.fst = r.line.tokens ++ [.endOfLine] :=
        LineCursor.map_fst_pending hopen
      rw [map_fst_lineTokens, List.map_append, hpending, ← List.append_assoc] at hall
      rw [(List.append_singleton_inj.mp hall).1]
      exact List.mem_append_right _ ht

/-- **A session whose input has no `=` completes no assignment.** -/
theorem assign_notMem_of_notMem {prompt : String} {input : Input} {output : Output} {n : Nat}
    {r : TokenReader} (hinput : 61 ∉ input.bytes)
    (h : ((new prompt input output).after n).reader.ready = (.ok (), r)) :
    .operator .assign ∉ r.line.tokens := by
  intro hmem
  obtain ⟨text, hline, htokens⟩ := exists_line_of_ready h
  have htext : '=' ∈ text := mem_of_mem_textTokens (htokens _ hmem) (List.mem_singleton_self '=')
  exact hinput ((Utf8.readsAs_decode input.bytes).mem_of_mem (by decide)
    (Input.mem_of_mem_lines hline htext))

/-- **The value of the last line that had one** in some steps. -/
def lastValue? (s : Session) : Nat → Option Float
  | 0 => none
  | n + 1 =>
    match (s.after n).lineValue.1 with
    | .ok x => some x
    | .error _ => s.lastValue? n

/-- Without an `=`, the value of the last line that had one is stored under `it`. -/
theorem getElem?_defaultTarget_after
    (hno : ∀ n r, (s.after n).reader.ready = (.ok (), r) → .operator .assign ∉ r.line.tokens)
    {n : Nat} {x : Float} (hx : s.lastValue? n = some x) :
    (s.after n).symbols[defaultTarget]? = some x := by
  induction n with
  | zero => cases hx
  | succ n ih =>
    obtain ⟨hstored, hkept⟩ := lineValue_of_assign_notMem (hno n)
    rw [after, step_symbols]
    rw [lastValue?] at hx
    split at hx
    · next y hy =>
      cases hx
      exact hstored x hy
    · next i hi => exact hkept i hi defaultTarget x (ih hx)

/-- **What a line has to do with a key that is no name**: it assigns to it, or assigns its text and
has a value. -/
def Introduces (s : Session) (key : String) : Prop :=
  key = "" ∧ (∃ text, s.CompletesAssignment "" text) ∨
    IsNumeralText key ∧ (∃ x, s.lineValue.1 = .ok x) ∧ ∃ name, s.CompletesAssignment name key

/-- A key that a line brings is a name, or the line assigns. -/
theorem introduces_of_mem_lineValue (h : key ∈ s.lineValue.2.symbols) (hnew : key ∉ s.symbols)
    (hname : ¬ IsName key) : s.Introduces key := by
  rcases mem_lineValue h with hold | hread | ⟨text, hassigns⟩ | ⟨hvalue, name, hassigns⟩
  · exact absurd hold hnew
  · exact absurd hread hname
  · obtain rfl := hassigns.name_cases.resolve_right hname
    exact .inl ⟨rfl, text, hassigns⟩
  · exact .inr ⟨hassigns.text_cases.resolve_left hname, hvalue, name, hassigns⟩

/-- **The keys of every session**, after any steps, are empty, names other than `exit`, or texts of
numbers with at most one point. A key that is no name has come at one of the steps, whose line
completes an assignment: to the empty name, or of the text of the number. So if the input has no
`=`, all keys are names, and `it` has the value of the last line that had one. -/
theorem keys_after (prompt : String) (input : Input) (output : Output) (n : Nat) :
    let s := new prompt input output
    (∀ key ∈ (s.after n).symbols, key = "" ∨ IsName key ∨ IsNumeralText key) ∧
    (∀ key ∈ (s.after n).symbols, key = "" ∨ IsNumeralText key →
      ∃ m < n, key ∉ (s.after m).symbols ∧ key ∈ (s.after (m + 1)).symbols ∧
        (s.after m).Introduces key) ∧
    (61 ∉ input.bytes → (∀ key ∈ (s.after n).symbols, IsName key) ∧
      ∀ x, s.lastValue? n = some x → (s.after n).symbols[defaultTarget]? = some x) := by
  intro s
  have hcame : ∀ key ∈ (s.after n).symbols, ¬ IsName key → ∃ m < n, key ∉ (s.after m).symbols ∧
      key ∈ (s.after (m + 1)).symbols ∧ (s.after m).Introduces key := by
    intro key hkey hname
    obtain ⟨m, hm, hnew, hold⟩ := exists_step_of_mem Std.ExtTreeMap.not_mem_empty hkey
    refine ⟨m, hm, hnew, hold, ?_⟩
    rw [after, step_symbols] at hold
    exact introduces_of_mem_lineValue hold hnew hname
  refine ⟨fun key hkey => ?_, fun key hkey hshape => hcame key hkey ?_,
    fun hinput => ⟨fun key hkey => ?_, ?_⟩⟩
  · by_cases hname : IsName key
    · exact .inr (.inl hname)
    · obtain ⟨m, -, -, -, ⟨rfl, -⟩ | ⟨hnumeral, -⟩⟩ := hcame key hkey hname
      · exact .inl rfl
      · exact .inr (.inr hnumeral)
  · rcases hshape with rfl | hnumeral
    · exact not_isName_empty
    · exact hnumeral.not_isName
  · by_contra hname
    obtain ⟨m, -, -, -, ⟨-, text, r, hready, hassigns⟩ | ⟨-, -, name, r, hready, hassigns⟩⟩ :=
      hcame key hkey hname
    · exact assign_notMem_of_notMem hinput hready hassigns.assign_mem
    · exact assign_notMem_of_notMem hinput hready hassigns.assign_mem
  · exact fun x => getElem?_defaultTarget_after fun m r => assign_notMem_of_notMem hinput

/-- The line `1 = 2` brings the keys `2` and the empty one, and the line `7` without an `=` the key
`it`. -/
theorem keys_after_lines :
    let s := new TokenReader.defaultPrompt ⟨Utf8.encode "1 = 2\n".toList, none⟩ (Output.empty none)
    let s' := new TokenReader.defaultPrompt ⟨Utf8.encode "7\n".toList, none⟩ (Output.empty none)
    (s.Introduces "" ∧ s.Introduces "2") ∧
      ∃ x, s'.lastValue? 1 = some x ∧ (s'.after 1).symbols[defaultTarget]? = some x := by
  intro s s'
  obtain ⟨-, hcame, -⟩ :=
    keys_after TokenReader.defaultPrompt ⟨Utf8.encode "1 = 2\n".toList, none⟩ (Output.empty none) 1
  obtain ⟨-, -, hno⟩ :=
    keys_after TokenReader.defaultPrompt ⟨Utf8.encode "7\n".toList, none⟩ (Output.empty none) 1
  have hempty : "" ∈ (s.after 1).symbols := by decide +kernel
  have htwo : "2" ∈ (s.after 1).symbols := by decide +kernel
  refine ⟨⟨?_, ?_⟩, ?_⟩
  · obtain ⟨m, hm, -, -, hintroduces⟩ := hcame "" hempty (.inl rfl)
    obtain rfl := Nat.lt_one_iff.mp hm
    exact hintroduces
  · obtain ⟨m, hm, -, -, hintroduces⟩ :=
      hcame "2" htwo (.inr ⟨⟨'2', [], rfl, rfl, by simp⟩, by decide⟩)
    obtain rfl := Nat.lt_one_iff.mp hm
    exact hintroduces
  · obtain ⟨x, hx⟩ : ∃ x, s'.lastValue? 1 = some x :=
      Option.isSome_iff_exists.mp (by decide +kernel)
    exact ⟨x, hx, (hno (by decide +kernel)).2 x hx⟩

end Session

end StackCalculator
