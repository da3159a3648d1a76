import StackCalculator.Proofs.Answers
import StackCalculator.Proofs.Viability

/-!
# The footprint of a line

A line reads and writes entries of the symbol table under names of four kinds: the names on the
line, the texts behind its assignments, the empty name if an `=` comes before all names, and `it` if
there is no assignment at all. These are its footprint, also if the line fails halfway.

A line cannot tell two tables apart that agree on its footprint. On both it has the same outcome and
makes the same accesses, so that a table is changed within the footprint alone, and what two lines
of disjoint footprints do to it does not depend on their order. Only names on a line are read, and
so an entry under a text that is no name is never read.

## Main definitions

* `Mentions ts name`, `InFootprint ts name`: the footprint of the tokens of a line
* `Session.withSymbols`: a session on another symbol table
* `Session.Holds line`: a session is about to evaluate a line

## Main results

* `Session.Holds.inFootprint`: a line accesses its footprint alone
* `Session.lineValue_withSymbols`: a line has the same outcome on tables that agree on what it reads
* `Session.Holds.comm`: lines of disjoint footprints may change places
* `Session.footprint_governs`: what follows for lines and sessions
-/

namespace StackCalculator

/-! ## Footprints -/

/-- **A line mentions a name**: the name stands on it, or the text stands behind an `=`. An `=`
without a name before it mentions the empty one. -/
inductive Mentions (ts : List Token) : String → Prop
  | name {text : String} (h : .identifier text ∈ ts) : Mentions ts text
  | literal {before behind : List Token} {t : Token} {text : String}
      (h : ts = before ++ .operator .assign :: t :: behind) (ht : t.text? = some text) :
      Mentions ts text
  | nameless {before behind : List Token} (h : ts = before ++ .operator .assign :: behind)
      (hnone : ∀ text, .identifier text ∉ before) : Mentions ts ""

/-- **The footprint of a line**: what it mentions, and `it` if it has no assignment. -/
def InFootprint (ts : List Token) (name : String) : Prop :=
  Mentions ts name ∨ name = defaultTarget ∧ .operator .assign ∉ ts

/-- More tokens mention more. -/
theorem Mentions.append {ts : List Token} {name : String} (h : Mentions ts name)
    (more : List Token) : Mentions (ts ++ more) name := by
  cases h with
  | name h => exact .name (List.mem_append_left _ h)
  | literal h ht => exact .literal (by rw [h, List.append_assoc]; rfl) ht
  | nameless h hnone => exact .nameless (by rw [h, List.append_assoc]; rfl) hnone

namespace Evaluation

/-- **The names that an evaluation keeps are mentioned** by the tokens that led to it, unless they
are those of the beginning. -/
structure Covered (ts : List Token) (e : Evaluation) : Prop where
  lastName : Mentions ts e.lastName ∨ e.lastName = "" ∧ ∀ text, .identifier text ∉ ts
  lastName_of_assigning : e.assigning = true → Mentions ts e.lastName
  target : Mentions ts e.target ∨
    e.target = defaultTarget ∧ (.operator .assign ∈ ts → e.assigning = true)

theorem covered_start (symbols : SymbolTable) : Covered [] (start symbols) where
  lastName := .inr ⟨rfl, fun _ => List.not_mem_nil⟩
  lastName_of_assigning h := nomatch h
  target := .inr ⟨rfl, fun h => absurd h List.not_mem_nil⟩

variable {symbols : SymbolTable} {e e' : Evaluation} {t : Token} {ts : List Token}

/-- A token that is neither an `=` nor behind one leaves the target. -/
theorem Covered.target_concat (h : Covered ts e) (ha : e.assigning = false)
    (ht : t ≠ .operator .assign) : Mentions (ts ++ [t]) e.target ∨
      e.target = defaultTarget ∧ .operator .assign ∉ ts ++ [t] := by
  refine h.target.imp (·.append [t]) (And.imp_right fun hassign hmem => ?_)
  rcases List.mem_append.mp hmem with hmem | hmem
  · rw [hassign hmem] at ha
    cases ha
  · exact ht (List.mem_singleton.mp hmem).symm

/-- An operand that is no name, or an operator other than `=`, leaves the names. -/
theorem Covered.keep (h : Covered ts e) (ha : e.assigning = false) (ht : t ≠ .operator .assign)
    (hname : ∀ text, t ≠ .identifier text) (hlast : e'.lastName = e.lastName)
    (htarget : e'.target = e.target) (ha' : e'.assigning = false) : Covered (ts ++ [t]) e' := by
  refine ⟨?_, fun htrue => ?_, ?_⟩
  · rw [hlast]
    refine h.lastName.imp (·.append [t]) (And.imp_right fun hnone text hmem => ?_)
    rcases List.mem_append.mp hmem with hmem | hmem
    · exact hnone text hmem
    · exact hname text (List.mem_singleton.mp hmem).symm
  · rw [ha'] at htrue
    cases htrue
  · rw [htarget]
    exact (h.target_concat ha ht).imp_right (And.imp_right fun hnone hmem => absurd hmem hnone)

/-- **Accepting a token keeps the names covered.** -/
theorem Covered.accept (h : Covered ts e)
    (hwaits : e.assigning = true → ts.getLast? = some (.operator .assign))
    (haccepts : Accepts e t e') : Covered (ts ++ [t]) e' := by
  cases haccepts with
  | target ha ht =>
    have hname := (h.lastName_of_assigning ha).append [t]
    obtain ⟨before, rfl⟩ := List.getLast?_eq_some_iff.mp (hwaits ha)
    exact ⟨.inl hname, fun _ => hname, .inl (.literal (by rw [List.append_assoc]; rfl) ht)⟩
  | number ha => exact h.keep ha (by simp) (by simp) rfl rfl ha
  | @identifier name ha =>
    have hname : Mentions (ts ++ [.identifier name]) name := .name (by simp)
    exact ⟨.inl hname, fun _ => hname,
      (h.target_concat ha (by simp)).imp_right (And.imp_right fun hnone hmem => absurd hmem hnone)⟩
  | negate ha => exact h.keep ha (by simp) (by simp) rfl rfl ha
  | binary ha => exact h.keep ha (by simp) (by simp) rfl rfl ha
  | assign =>
    have hname : Mentions (ts ++ [.operator .assign]) e.lastName := by
      rcases h.lastName with hmentions | ⟨hempty, hnone⟩
      · exact hmentions.append _
      · rw [hempty]
        exact .nameless rfl hnone
    exact ⟨.inl hname, fun _ => hname, h.target.imp (·.append _) (And.imp_right fun _ _ => rfl)⟩

/-- **Accepted tokens mention all names that are kept of them.** -/
theorem covered_of_advance? (h : (start symbols).advance? ts = some e) : Covered ts e := by
  induction ts using List.reverseRecOn generalizing e with
  | nil =>
    obtain rfl : start symbols = e := Option.some.inj h
    exact covered_start symbols
  | append_singleton ts t ih =>
    rw [advance?_append] at h
    obtain ⟨e₁, h₁, h₂⟩ := Option.bind_eq_some_iff.mp h
    rw [advance?_singleton] at h₂
    exact (ih h₁).accept (assigning_of_advance? rfl h₁).mp (accepts_of_accept? h₂)

/-- What a token accesses is mentioned by then. -/
theorem Covered.mentions_of_access? (h : Covered ts e) {a : Access} (ha : e.access? t = some a) :
    Mentions (ts ++ [t]) a.name := by
  cases hassigning : e.assigning with
  | true =>
    rw [access?_of_assigning hassigning] at ha
    obtain ⟨x, -, rfl⟩ := Option.map_eq_some_iff.mp ha
    exact (h.lastName_of_assigning hassigning).append [t]
  | false =>
    cases t with
    | identifier name =>
      rw [access?_identifier hassigning] at ha
      split at ha
      · cases ha
      · cases ha
        exact .name (by simp [Access.name])
    | number | operator | invalid | endOfLine =>
      rw [access?_eq_none hassigning (by simp)] at ha
      cases ha

/-- **Accepted tokens mention what they access.** -/
theorem mentions_of_mem_accesses (h : (start symbols).advance? ts = some e) :
    ∀ a ∈ accesses (items ts).reverse, Mentions ts a.name := by
  induction ts using List.reverseRecOn generalizing e with
  | nil =>
    intro a ha
    cases ha
  | append_singleton ts t ih =>
    intro a ha
    rw [advance?_append] at h
    obtain ⟨e₁, h₁, -⟩ := Option.bind_eq_some_iff.mp h
    have hconcat := (after_start symbols).accesses_concat rfl h₁ t
    rw [List.append_nil, List.append_nil] at hconcat
    rw [hconcat] at ha
    rcases List.mem_append.mp ha with ha | ha
    · exact (ih h₁ a ha).append [t]
    · exact (covered_of_advance? h₁).mentions_of_access? (Option.mem_toList.mp ha)

/-! ## Evaluation on another table -/

/-- **An evaluation on another symbol table.** -/
def withSymbols (symbols : SymbolTable) (e : Evaluation) : Evaluation :=
  { e with symbols }

/-- **A token does the same on another table**, if it is no name of a different value there: it
makes the same access, and leads on, stores a value or interrupts the line alike. -/
theorem feed_withSymbols (column : Nat)
    (hread : ∀ name, t = .identifier name → symbols.value name = e.symbols.value name) :
    (e.withSymbols symbols).feed t column =
      match e.feed t column with
      | .next e' remark? => .next (e'.withSymbols (symbols.replay (e.access? t).toList)) remark?
      | .done x _ remark => .done x (symbols.insert e.target x) remark
      | .stopped i => .stopped i := by
  have hassigning : (e.withSymbols symbols).assigning = e.assigning := rfl
  have hflag : (e.withSymbols symbols).afterOperator = e.afterOperator := rfl
  have hstack : (e.withSymbols symbols).stack = e.stack := rfl
  rw [feed.eq_def, feed.eq_def, hassigning]
  cases ha : e.assigning with
  | true =>
    rw [access?_of_assigning ha, if_pos rfl, if_pos rfl]
    cases t with
    | number text | identifier text =>
      simp only [feedTarget, Literal.value, Token.numeral?, Token.text?, Option.bind_some]
      cases Literal.read? text <;> rfl
    | operator | invalid | endOfLine => rfl
  | false =>
    rw [if_neg Bool.false_ne_true, if_neg Bool.false_ne_true]
    cases t with
    | number text =>
      rw [access?_eq_none ha (by simp)]
      simp only [feedNumber, Literal.value]
      by_cases ho : e.afterOperator = true
      · rw [if_pos (hflag.trans ho), if_pos ho]
        rfl
      · rw [if_neg (hflag ▸ ho), if_neg ho]
        cases Literal.read? text <;> rfl
    | identifier name =>
      -- the one token that reads the table
      rw [access?_identifier ha]
      have hvalue : (e.withSymbols symbols).symbols.value name = e.symbols.value name :=
        hread name rfl
      simp only [feedName, hvalue]
      by_cases ho : e.afterOperator = true
      · rw [if_pos (hflag.trans ho), if_pos ho]
        rfl
      · by_cases he : name = exitName
        · rw [if_neg (hflag ▸ ho), if_pos he, if_neg ho, if_pos he]
        · rw [if_neg (hflag ▸ ho), if_neg he, if_neg ho, if_neg he, if_neg (not_or.mpr ⟨ho, he⟩)]
          rfl
    | operator op =>
      rw [access?_eq_none ha (by simp)]
      rcases op with op | _ | _
      · simp only [feedBinary, hstack]
        rcases e.stack with - | ⟨right, - | ⟨left, stack⟩⟩
        · rfl
        · rfl
        · dsimp only
          cases op.apply left right <;> rfl
      · simp only [feedNegate, hstack]
        cases e.stack <;> rfl
      · simp only [feedAssign, hstack]
        cases e.stack <;> rfl
    | invalid c => rfl
    | endOfLine =>
      simp only [finish, hstack]
      rcases e.stack with - | ⟨x, - | ⟨y, stack⟩⟩ <;> rfl

end Evaluation

namespace Session

open Evaluation

/-- **A session on another symbol table.** -/
def withSymbols (symbols : SymbolTable) (s : Session) : Session :=
  { s with symbols }

/-- **Tables have the same entries for the names that a line still has to give.** -/
def SameNames (l : LineCursor) (symbols symbols' : SymbolTable) : Prop :=
  ∀ name, .identifier name ∈ l.pending.map Prod.fst → symbols[name]? = symbols'[name]?

section SameNames

variable {r : TokenReader} {symbols symbols' : SymbolTable}

/-- A name that comes next has the same value. -/
theorem SameNames.value_eq (h : SameNames r.line symbols symbols')
    (hr : r.line.phase.isFinished = false) (name : String) (hname : r.take.1 = .identifier name) :
    symbols.value name = symbols'.value name := by
  have hentry : symbols[name]? = symbols'[name]? := by
    apply h
    rw [TokenReader.pending_take hr, ← hname]
    exact List.mem_cons_self
  rw [SymbolTable.value, hentry, SymbolTable.value]

/-- The names behind a token have the same entries after the same accesses. -/
theorem SameNames.replay (h : SameNames r.line symbols symbols')
    (hr : r.line.phase.isFinished = false) (accesses : List Access) :
    SameNames r.take.2.line (symbols.replay accesses) (symbols'.replay accesses) := by
  intro name hname
  apply SymbolTable.getElem?_replay_congr
  apply h
  rw [TokenReader.pending_take hr]
  exact List.mem_cons_of_mem _ hname

end SameNames

/-- **The rest of a line does the same on a table on which its names have the same entries.** -/
theorem restValue_withSymbols (e : Evaluation) (r : TokenReader) : ∀ symbols : SymbolTable,
    r.line.phase.isFinished = false → SameNames r.line symbols e.symbols →
    (restValue (e.withSymbols symbols) r).1 = (restValue e r).1 ∧
      (restValue (e.withSymbols symbols) r).2.reader = (restValue e r).2.reader := by
  fun_induction restValue e r with
  | case1 e r r₁ e₁ remark? hfeed ih =>
    intro symbols hr hsame
    have hfeed' := feed_withSymbols r.take.2.line.column (hsame.value_eq hr)
    rw [hfeed] at hfeed'
    rw [restValue_of_next hfeed']
    apply ih
    · exact TokenReader.not_isFinished_noteAny_take (ne_endOfLine_of_next hfeed) remark?
    · rw [(accepts_of_accept? (accept?_of_feed hfeed)).symbols_eq, TokenReader.noteAny_line]
      exact hsame.replay hr _
  | case2 e r r₁ x symbols₁ remark hfeed =>
    intro symbols hr hsame
    have hfeed' := feed_withSymbols r.take.2.line.column (hsame.value_eq hr)
    rw [hfeed] at hfeed'
    rw [restValue_of_done hfeed']
    exact ⟨rfl, rfl⟩
  | case3 e r r₁ i hfeed =>
    intro symbols hr hsame
    have hfeed' := feed_withSymbols r.take.2.line.column (hsame.value_eq hr)
    rw [hfeed] at hfeed'
    rw [restValue_of_stopped hfeed']
    exact ⟨rfl, rfl⟩

variable {s t : Session} {r : TokenReader}

/-- The names of a line are among the tokens before its end. -/
theorem sameNames_of_tokens {l : LineCursor} {symbols symbols' : SymbolTable}
    (hl : l.phase.isFinished = false)
    (h : ∀ name, .identifier name ∈ l.tokens → symbols[name]? = symbols'[name]?) :
    SameNames l symbols symbols' := by
  intro name hname
  obtain ⟨before, column, hpending, htokens⟩ := LineCursor.exists_pending_eq hl
  rw [hpending, List.map_append, htokens] at hname
  rcases List.mem_append.mp hname with hname | hname
  · exact h name hname
  · simp at hname

/-- **A line has the same outcome on tables that agree on the names on it**, and leaves the reader
alike. -/
theorem lineValue_withSymbols (hready : s.reader.ready = (.ok (), r)) {symbols : SymbolTable}
    (h : ∀ name, .identifier name ∈ r.line.tokens → symbols[name]? = s.symbols[name]?) :
    (s.withSymbols symbols).lineValue.1 = s.lineValue.1 ∧
      (s.withSymbols symbols).lineValue.2.reader = s.lineValue.2.reader := by
  have hr := TokenReader.not_isFinished_of_ready hready
  have hready' : (s.withSymbols symbols).reader.ready = (.ok (), r) := hready
  rw [lineValue_of_ready hready, lineValue_of_ready hready']
  exact restValue_withSymbols (start s.symbols) r symbols hr (sameNames_of_tokens hr h)

/-! ## What a line accesses -/

/-- **A session is about to evaluate a line**: it is at hand, or comes next. -/
def Holds (s : Session) (line : LineCursor) : Prop :=
  ∃ r, s.reader.ready = (.ok (), r) ∧ r.line = line

variable {line : LineCursor}

/-- **A line accesses its footprint alone.** -/
theorem Holds.inFootprint (h : s.Holds line) :
    ∀ a ∈ s.lineAccesses, InFootprint line.tokens a.name := by
  obtain ⟨r, hready, rfl⟩ := h
  have hr := TokenReader.not_isFinished_of_ready hready
  obtain ⟨accepted, e, t, column, behind, hsettles, hpending, hverdict⟩ := lineValue_settles hready
  rw [lineAccesses_of_settles hready hsettles hpending hverdict]
  intro a ha
  rcases List.mem_append.mp ha with ha | ha
  · -- an access of an accepted token
    have hmentions := mentions_of_mem_accesses hsettles.advance_eq a ha
    obtain ⟨more, htokens⟩ := LineCursor.isPrefix_tokens hr hsettles.line_eq
    rw [← htokens]
    exact .inl (hmentions.append _)
  · -- the target, at the end of the line
    cases hvalue : s.lineValue.1 with
    | error i =>
      rw [hvalue] at ha
      cases ha
    | ok x =>
      rw [hvalue] at ha hverdict
      obtain rfl := List.mem_singleton.mp ha
      obtain ⟨remark, hdone⟩ := Progress.exists_done_of_verdict? hverdict
      obtain rfl := eq_endOfLine_of_done hdone
      obtain ⟨hassigning, -⟩ := feed_endOfLine_eq_done_iff.mp ⟨remark, hdone⟩
      rw [(LineCursor.split_endOfLine hr hsettles.line_eq).2]
      refine (covered_of_advance? hsettles.advance_eq).target.imp_right
        (And.imp_right fun hwaits hmem => ?_)
      rw [hwaits hmem] at hassigning
      cases hassigning

/-- What a line accesses is up to its outcome and to where it leaves the line. -/
theorem Holds.lineAccesses_congr (hs : s.Holds line) (ht : t.Holds line)
    (hvalue : s.lineValue.1 = t.lineValue.1)
    (hline : s.lineValue.2.reader.line = t.lineValue.2.reader.line) :
    s.lineAccesses = t.lineAccesses := by
  obtain ⟨r, hready, rfl⟩ := hs
  obtain ⟨r', hready', hline'⟩ := ht
  simp only [lineAccesses, hready, hready', hvalue, hline, hline']

/-- **Sessions that hold the same line do the same with it**, if their tables agree on its
footprint. -/
theorem Holds.congr (hs : s.Holds line) (ht : t.Holds line)
    (h : ∀ name, InFootprint line.tokens name → s.symbols[name]? = t.symbols[name]?) :
    s.lineValue.1 = t.lineValue.1 ∧ s.lineAccesses = t.lineAccesses := by
  obtain ⟨r, hready, hline⟩ := id hs
  obtain ⟨r', hready', hline'⟩ := id ht
  -- first on the table of the other session, and then with its reader
  have hnames : ∀ name, .identifier name ∈ r.line.tokens → t.symbols[name]? = s.symbols[name]? := by
    rw [hline]
    exact fun name hname => (h name (.inl (.name hname))).symm
  obtain ⟨hvalue, hreader⟩ := lineValue_withSymbols hready hnames
  obtain ⟨hvalue', -, hline''⟩ := restValue_congr (start t.symbols) r r' (hline.trans hline'.symm)
  have hready'' : (s.withSymbols t.symbols).reader.ready = (.ok (), r) := hready
  rw [lineValue_of_ready hready''] at hvalue hreader
  rw [← lineValue_of_ready hready'] at hvalue' hline''
  have hsame : s.lineValue.1 = t.lineValue.1 := hvalue.symm.trans hvalue'
  exact ⟨hsame, hs.lineAccesses_congr ht hsame
    ((congrArg TokenReader.line hreader).symm.trans hline'')⟩

/-- **Lines of disjoint footprints may change places**: evaluated one after the other, each has the
outcome that it has by itself, and in either order they leave the same table. -/
theorem Holds.comm {other : LineCursor} {s' t' : Session} (hs : s.Holds line) (ht : t.Holds other)
    (hs' : s'.Holds line) (ht' : t'.Holds other) (hsame : s.symbols = t.symbols)
    (hbehind : t'.symbols = s.step.2.symbols) (hbehind' : s'.symbols = t.step.2.symbols)
    (hdisjoint : ∀ name, InFootprint line.tokens name → ¬ InFootprint other.tokens name) :
    s'.lineValue.1 = s.lineValue.1 ∧ t'.lineValue.1 = t.lineValue.1 ∧
      t'.step.2.symbols = s'.step.2.symbols := by
  rw [step_symbols, lineValue_symbols] at hbehind hbehind'
  obtain ⟨hvalue, haccesses⟩ : s'.lineValue.1 = s.lineValue.1 ∧
      s'.lineAccesses = s.lineAccesses := by
    refine hs'.congr hs fun name hname => ?_
    rw [hbehind', hsame, SymbolTable.getElem?_replay_of_ne]
    rintro a ha rfl
    exact hdisjoint _ hname (ht.inFootprint a ha)
  obtain ⟨hvalue', haccesses'⟩ : t'.lineValue.1 = t.lineValue.1 ∧
      t'.lineAccesses = t.lineAccesses := by
    refine ht'.congr ht fun name hname => ?_
    rw [hbehind, ← hsame, SymbolTable.getElem?_replay_of_ne]
    rintro a ha rfl
    exact hdisjoint _ (hs.inFootprint a ha) hname
  refine ⟨hvalue, hvalue', ?_⟩
  rw [step_symbols, lineValue_symbols, step_symbols, lineValue_symbols, hbehind, hbehind',
    haccesses, haccesses', hsame]
  refine SymbolTable.replay_comm _ fun a ha b hb heq => ?_
  exact hdisjoint _ (hs.inFootprint a ha) (heq ▸ ht.inFootprint b hb)

/-! ## Entries that no line reads -/

section Unread

variable {symbols : SymbolTable}

/-- An answer does not depend on the table. -/
theorem answer_withSymbols (value : Except Interrupt Float) (s : Session) (symbols : SymbolTable) :
    answer value (s.withSymbols symbols) =
      ((answer value s).1, (answer value s).2.withSymbols symbols) := by
  match value with
  | .ok x => rfl
  | .error (.failed d) =>
    simp only [answer, answerFailure_eq]
    have hwrite : (s.withSymbols symbols).reader = s.reader := rfl
    rw [hwrite]
    rcases s.reader.output.write (diagnosticText d s.reader.line.text) with
      ⟨reason | u, output⟩ <;> rfl
  | .error (.ended ending) => rfl
  | .error (.fatal err) => rfl

/-- **Entries under texts that are no names make no difference** to the next step. -/
theorem step_withSymbols
    (h : ∀ name, (Token.identifier name).Shaped → symbols[name]? = s.symbols[name]?) :
    (s.withSymbols symbols).lineValue.1 = s.lineValue.1 ∧
      (s.withSymbols symbols).step =
        (s.step.1, s.step.2.withSymbols (symbols.replay s.lineAccesses)) := by
  have hline : (s.withSymbols symbols).lineValue =
      (s.lineValue.1, s.lineValue.2.withSymbols (symbols.replay s.lineAccesses)) := by
    rcases hready : s.reader.ready with ⟨i | u, r⟩
    · have hready' : (s.withSymbols symbols).reader.ready = (.error i, r) := hready
      simp only [lineValue, lineAccesses, hready, hready']
      rfl
    · have hnames : ∀ name, .identifier name ∈ r.line.tokens → symbols[name]? = s.symbols[name]? :=
        fun name hname =>
          h name (shaped_of_mem_tokens (TokenReader.not_isFinished_of_ready hready) _ hname)
      obtain ⟨hvalue, hreader⟩ := lineValue_withSymbols hready hnames
      have hholds : s.Holds r.line := ⟨r, hready, rfl⟩
      have hholds' : (s.withSymbols symbols).Holds r.line := ⟨r, hready, rfl⟩
      have hsymbols := lineValue_symbols (s.withSymbols symbols)
      rw [hholds'.lineAccesses_congr hholds hvalue (congrArg TokenReader.line hreader)] at hsymbols
      exact Prod.ext hvalue (congrArg₂ Session.mk hreader hsymbols)
  refine ⟨by rw [hline], ?_⟩
  rw [step_eq_answer, hline, answer_withSymbols, ← step_eq_answer]

/-- **Nor do they to any number of steps.** -/
theorem after_withSymbols
    (h : ∀ name, (Token.identifier name).Shaped → symbols[name]? = s.symbols[name]?) (n : Nat) :
    (s.withSymbols symbols).after n = (s.after n).withSymbols (symbols.replay (s.history n)) := by
  induction n with
  | zero => rfl
  | succ n ih =>
    have hagree : ∀ name, (Token.identifier name).Shaped →
        (symbols.replay (s.history n))[name]? = (s.after n).symbols[name]? := by
      intro name hname
      rw [symbols_after]
      exact SymbolTable.getElem?_replay_congr (h name hname) _
    rw [after, ih, (step_withSymbols hagree).2, after, history, SymbolTable.replay_append]

end Unread

/-- **The footprint governs what lines do.** On tables that agree on the footprint of a line, the
line has the same outcome and leaves tables that agree on it again; outside the footprint it leaves
the table alone. Entries under texts that are no names, such as the empty text and the texts of
numbers, make no difference to any session, however long it goes on, and tables that differ in them
alone go on to differ in them alone. Lines of disjoint footprints, evaluated one after the other,
have the same outcomes in either order and leave the same table. -/
theorem footprint_governs (line other : LineCursor) :
    (∀ s t : Session, s.Holds line → t.Holds line →
      (∀ name, InFootprint line.tokens name → s.symbols[name]? = t.symbols[name]?) →
      s.lineValue.1 = t.lineValue.1 ∧ ∀ name, InFootprint line.tokens name →
        s.lineValue.2.symbols[name]? = t.lineValue.2.symbols[name]?) ∧
    (∀ s : Session, s.Holds line → ∀ name, ¬ InFootprint line.tokens name →
      s.lineValue.2.symbols[name]? = s.symbols[name]?) ∧
    (∀ (s : Session) (symbols : SymbolTable),
      (∀ name : String, symbols[name]? ≠ s.symbols[name]? → ¬ (Token.identifier name).Shaped) →
      ∀ n, ((s.withSymbols symbols).after n).lineValue.1 = (s.after n).lineValue.1 ∧
        ((s.withSymbols symbols).after n).step.1 = (s.after n).step.1 ∧
        ((s.withSymbols symbols).after n).reader = (s.after n).reader ∧
        ∀ name : String, symbols[name]? = s.symbols[name]? →
          ((s.withSymbols symbols).after n).symbols[name]? = (s.after n).symbols[name]?) ∧
    (¬ (Token.identifier "").Shaped ∧
      ∀ text, (Token.number text).Shaped → ¬ (Token.identifier text).Shaped) ∧
    ∀ s t s' t' : Session, s.Holds line → t.Holds other → s'.Holds line → t'.Holds other →
      s.symbols = t.symbols → t'.symbols = s.step.2.symbols → s'.symbols = t.step.2.symbols →
      (∀ name, InFootprint line.tokens name → ¬ InFootprint other.tokens name) →
      s'.lineValue.1 = s.lineValue.1 ∧ t'.lineValue.1 = t.lineValue.1 ∧
        t'.step.2.symbols = s'.step.2.symbols := by
  refine ⟨fun s t hs ht h => ?_, fun s hs name hname => ?_, fun s symbols h n => ?_, ⟨?_, ?_⟩,
    fun s t s' t' => Holds.comm⟩
  · obtain ⟨hvalue, haccesses⟩ := hs.congr ht h
    refine ⟨hvalue, fun name hname => ?_⟩
    rw [lineValue_symbols, lineValue_symbols, haccesses]
    exact SymbolTable.getElem?_replay_congr (h name hname) _
  · rw [lineValue_symbols]
    apply SymbolTable.getElem?_replay_of_ne
    rintro a ha rfl
    exact hname (hs.inFootprint a ha)
  · have hnames : ∀ name, (Token.identifier name).Shaped → symbols[name]? = s.symbols[name]? :=
      fun name hname => by_contra fun hne => h name hne hname
    have hagree : ∀ name : String, symbols[name]? = s.symbols[name]? →
        (symbols.replay (s.history n))[name]? = (s.after n).symbols[name]? := by
      intro name hname
      rw [symbols_after]
      exact SymbolTable.getElem?_replay_congr hname _
    obtain ⟨hvalue, hstep⟩ := step_withSymbols fun name hname => hagree name (hnames name hname)
    rw [after_withSymbols hnames n]
    exact ⟨hvalue, by rw [hstep], rfl, hagree⟩
  · rintro ⟨c, cs, hempty, -⟩
    cases hempty
  · intro text
    exact Token.not_shaped_identifier_of_number

end Session

/-- **The footprint of an assignment** such as `x = 5`: the name, and the text of the number. -/
theorem inFootprint_assignment {x text name : String}
    (h : InFootprint [.identifier x, .operator .assign, .number text] name) :
    name = x ∨ name = text := by
  rcases h with h | ⟨-, hnone⟩
  · cases h with
    | name h => exact .inl (by simpa using h)
    | @literal before behind t _ h ht =>
      rcases before with - | ⟨u, - | ⟨v, before⟩⟩
      · cases h
      · cases h
        exact .inr (Option.some.inj ht).symm
      · have hlength := congrArg List.length h
        simp only [List.length_cons, List.length_nil, List.length_append] at hlength
        omega
    | @nameless before behind h hnone =>
      rcases before with - | ⟨u, before⟩
      · cases h
      · obtain ⟨rfl, -⟩ := List.cons.inj h
        exact absurd List.mem_cons_self (hnone x)
  · simp at hnone

namespace Session

/-- The lines `x = 5` and `y = 6` may change places. -/
theorem footprint_governs_assignments :
    let s : Session := ⟨.holding "x = 5".toList, ∅⟩
    let t : Session := ⟨.holding "y = 6".toList, ∅⟩
    let s' : Session := ⟨.holding "x = 5".toList, t.step.2.symbols⟩
    let t' : Session := ⟨.holding "y = 6".toList, s.step.2.symbols⟩
    s.reader.line.tokens = [.identifier "x", .operator .assign, .number "5"] ∧
      t.reader.line.tokens = [.identifier "y", .operator .assign, .number "6"] ∧
      s'.lineValue.1 = s.lineValue.1 ∧ t'.step.2.symbols = s'.step.2.symbols := by
  intro s t s' t'
  have hs : s.reader.line.tokens = [.identifier "x", .operator .assign, .number "5"] := by
    decide +kernel
  have ht : t.reader.line.tokens = [.identifier "y", .operator .assign, .number "6"] := by
    decide +kernel
  have hdisjoint : ∀ name, InFootprint s.reader.line.tokens name →
      ¬ InFootprint t.reader.line.tokens name := by
    rw [hs, ht]
    intro name hname hname'
    rcases inFootprint_assignment hname with rfl | rfl
    · exact absurd (inFootprint_assignment hname') (by decide)
    · exact absurd (inFootprint_assignment hname') (by decide)
  obtain ⟨-, -, -, -, hcomm⟩ := footprint_governs s.reader.line t.reader.line
  have hready : ∀ text symbols, Holds ⟨.holding text, symbols⟩ (TokenReader.holding text).line :=
    fun text symbols => ⟨_, TokenReader.ready_holding text, rfl⟩
  obtain ⟨hvalue, -, hsymbols⟩ :=
    hcomm s t s' t' (hready _ _) (hready _ _) (hready _ _) (hready _ _) rfl rfl rfl hdisjoint
  exact ⟨hs, ht, hvalue, hsymbols⟩

end Session

end StackCalculator
