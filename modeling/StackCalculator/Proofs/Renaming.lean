import Mathlib.Algebra.Group.End
import StackCalculator.Number.Literal
import StackCalculator.Proofs.Decoding
import StackCalculator.Proofs.Tiling

/-!
# Renaming the names of a text

A renaming is a permutation of the names that keeps those with a meaning of their own: `it`, `exit`,
and the words that spell a number, in any letter case. It acts on a text by replacing each name and
leaving everything else where it is, the blanks included.

What a renamed text is cut into depends on its names as little as possible. A name is replaced by a
name, and the characters around it are not part of either, so that the tokens of the renamed text
are the renamed tokens, its lines are the renamed lines, and the renaming can be undone.

## Main definitions

* `Name`: the texts that are names
* `Reserved text`: a text with a meaning of its own
* `Renaming`: a permutation of the names that keeps those
* `Renaming.rename`, `Renaming.token`, `Renaming.text`: what it does to texts as a whole, to tokens,
  and to the names in a text

## Main results

* `Renaming.read?_rename`: a renamed text spells the number that the text spells
* `Renaming.textTokens_text`: the tokens of a renamed text are the renamed tokens
* `Renaming.symm_text_text`: a renaming can be undone
* `Renaming.textLines_text`: the lines of a renamed text are the renamed lines
-/

namespace StackCalculator

/-! ## Names -/

/-- A name is cut off as a whole. -/
theorem Token.first_toList_iff_shaped {text : String} :
    first text.toList = .identifier text ↔ (Token.identifier text).Shaped := by
  constructor
  · intro h
    cases htext : text.toList with
    | nil => rw [htext] at h; cases h
    | cons c cs =>
      rw [htext] at h
      rw [← h]
      apply shaped_first
      cases hb : isBlank c with
      | false => rfl
      | true =>
        obtain rfl | rfl : c = ' ' ∨ c = '\t' := by simpa [isBlank] using hb
        · exact absurd h (by simp [first, isNameStart, Operator.ofSymbol?])
        · exact absurd h (by simp [first, isNameStart, Operator.ofSymbol?])
  · intro h
    have hfirst : first (text.toList ++ []) = .identifier text :=
      first_written_append_of_shaped h (by simp [Stops])
    rwa [List.append_nil] at hfirst

instance (text : String) : Decidable (Token.identifier text).Shaped :=
  decidable_of_iff _ Token.first_toList_iff_shaped

/-- A name does not prolong a number. -/
theorem isNumberPart_of_isNameStart {c : Char} (h : isNameStart c = true) :
    isNumberPart c = false := by
  rw [isNumberPart, isDigit_of_isNameStart h, Bool.false_or]
  refine decide_eq_false ?_
  rintro rfl
  exact absurd h (by decide)

theorem isNamePart_of_isNameStart {c : Char} (h : isNameStart c = true) : isNamePart c = true := by
  rw [isNameStart, Bool.or_eq_true] at h
  rw [isNamePart, Char.isAlphanum, Bool.or_eq_true, Bool.or_eq_true]
  exact h.imp_left .inl

/-- **The texts that are names.** -/
abbrev Name := {text : String // (Token.identifier text).Shaped}

/-- A word that spells a number without a digit, in any letter case. -/
def SpellsNumber (text : String) : Prop :=
  text.toList.map Char.toLower ∈ ["inf".toList, "infinity".toList, "nan".toList]
deriving Decidable

/-- **A text with a meaning of its own.** -/
def Reserved (text : String) : Prop :=
  text = defaultTarget ∨ text = exitName ∨ SpellsNumber text
deriving Decidable

/-- A name spells no number, unless it is one of the words that do. -/
theorem Literal.read?_eq_none_of_name {text : String} (h : (Token.identifier text).Shaped)
    (hword : ¬ SpellsNumber text) : read? text = none := by
  obtain ⟨c, cs, htext, hc, -⟩ := h
  have hd : c.isDigit = false := isDigit_of_isNameStart hc
  have hsign := splitSign_of_isNamePart (isNamePart_of_isNameStart hc) cs
  have hpoint : fraction (c :: cs) = ([], c :: cs) := by
    unfold fraction
    split
    · next heq =>
      cases heq
      exact absurd hc (by decide)
    · rfl
  have hdecimal : decimal? (c :: cs) = none := by
    rw [decimal?, List.takeWhile_cons_of_neg (by simp [hd]),
      List.dropWhile_cons_of_neg (by simp [hd]), hpoint]
    rfl
  rw [SpellsNumber, htext] at hword
  simp only [List.mem_cons, List.not_mem_nil, or_false, not_or] at hword
  obtain ⟨hinf, hinfinity, hnan⟩ := hword
  rw [read?, htext, hsign]
  dsimp only
  rw [hdecimal]
  dsimp only
  rw [if_neg (not_or.mpr ⟨hinf, hinfinity⟩), if_neg hnan]

/-- **A renaming**: a permutation of the names that keeps those with a meaning of their own. -/
structure Renaming where
  perm : Equiv.Perm Name
  fixes : ∀ x : Name, Reserved x.val → perm x = x

namespace Renaming

variable (ρ : Renaming)

/-- The renaming that undoes another. -/
def symm : Renaming where
  perm := ρ.perm.symm
  fixes x hx := by
    rw [Equiv.symm_apply_eq, ρ.fixes x hx]

/-- Two names are exchanged. -/
def swap (x y : Name) (hx : ¬ Reserved x.val) (hy : ¬ Reserved y.val) : Renaming where
  perm := Equiv.swap x y
  fixes z hz := by
    apply Equiv.swap_apply_of_ne_of_ne
    · rintro rfl
      exact hx hz
    · rintro rfl
      exact hy hz

/-! ## Texts as a whole -/

/-- **What becomes of a text**: a name is renamed, and any other text stays. -/
def rename : Equiv.Perm String :=
  Equiv.Perm.ofSubtype ρ.perm

theorem rename_name (x : Name) : ρ.rename x.val = (ρ.perm x).val :=
  Equiv.Perm.ofSubtype_apply_coe ρ.perm x

theorem rename_of_not_shaped {text : String} (h : ¬ (Token.identifier text).Shaped) :
    ρ.rename text = text :=
  Equiv.Perm.ofSubtype_apply_of_not_mem ρ.perm h

theorem shaped_rename_iff {text : String} :
    (Token.identifier (ρ.rename text)).Shaped ↔ (Token.identifier text).Shaped :=
  Equiv.Perm.ofSubtype_apply_mem_iff_mem ρ.perm text

/-- A text with a meaning of its own stays. -/
theorem rename_of_reserved {text : String} (h : Reserved text) : ρ.rename text = text := by
  by_cases hname : (Token.identifier text).Shaped
  · rw [ρ.rename_name ⟨text, hname⟩, ρ.fixes ⟨text, hname⟩ h]
  · exact ρ.rename_of_not_shaped hname

/-- No other text is renamed to one with a meaning of its own. -/
theorem rename_eq_iff_of_reserved {text word : String} (h : Reserved word) :
    ρ.rename text = word ↔ text = word := by
  rw [← ρ.rename.injective.eq_iff (a := text), ρ.rename_of_reserved h]

theorem symm_rename_rename (text : String) : ρ.symm.rename (ρ.rename text) = text := by
  by_cases hname : (Token.identifier text).Shaped
  · rw [ρ.rename_name ⟨text, hname⟩, ρ.symm.rename_name]
    exact congrArg Subtype.val (ρ.perm.symm_apply_apply ⟨text, hname⟩)
  · rw [ρ.rename_of_not_shaped hname, ρ.symm.rename_of_not_shaped hname]

/-- **A renamed text spells the number that the text spells**, if any. -/
theorem read?_rename (text : String) : Literal.read? (ρ.rename text) = Literal.read? text := by
  by_cases hword : Reserved text
  · rw [ρ.rename_of_reserved hword]
  · by_cases hname : (Token.identifier text).Shaped
    · -- neither of the two names spells a number
      have hword' : ¬ Reserved (ρ.rename text) := by
        intro h
        have htext := (ρ.rename_eq_iff_of_reserved h).mp rfl
        exact hword (htext ▸ h)
      rw [Literal.read?_eq_none_of_name hname fun h => hword (.inr (.inr h)),
        Literal.read?_eq_none_of_name (ρ.shaped_rename_iff.mpr hname)
          fun h => hword' (.inr (.inr h))]
    · rw [ρ.rename_of_not_shaped hname]

/-! ## Tokens -/

/-- **A token is renamed** if it is a name. -/
def token : Token → Token
  | .identifier text => .identifier (ρ.rename text)
  | t => t

theorem token_of_ne {t : Token} (h : ∀ text, t ≠ .identifier text) : ρ.token t = t := by
  cases t with
  | identifier text => exact absurd rfl (h text)
  | number | operator | invalid | endOfLine => rfl

theorem symm_token_token (t : Token) : ρ.symm.token (ρ.token t) = t := by
  cases t with
  | identifier text => exact congrArg Token.identifier (ρ.symm_rename_rename text)
  | number | operator | invalid | endOfLine => rfl

theorem shaped_token {t : Token} (h : t.Shaped) : (ρ.token t).Shaped := by
  cases t with
  | identifier text => exact ρ.shaped_rename_iff.mpr h
  | number | operator | invalid | endOfLine => exact h

/-! ## The names in a text -/

/-- **The names in a text are renamed**, and everything else stays. -/
def text (cs : List Char) : List Char :=
  let rest := cs.dropWhile isBlank
  if _ : rest = [] then cs
  else
    let t := Token.first rest
    cs.takeWhile isBlank ++ ((ρ.token t).written ++ text (rest.drop t.written.length))
termination_by cs.length
decreasing_by exact Token.length_drop_first_lt ‹_›

variable {bs cs rest : List Char} {t : Token}

theorem text_of_blank (h : ∀ b ∈ cs, isBlank b = true) : ρ.text cs = cs := by
  rw [text]
  exact dif_pos (List.dropWhile_eq_nil_iff.mpr h)

@[simp]
theorem text_nil : ρ.text [] = [] :=
  ρ.text_of_blank (by simp)

/-- The token behind some blanks is renamed, and so is the text behind it. -/
theorem text_append (hbs : ∀ b ∈ bs, isBlank b = true) (h : t.Shaped) (hstop : t.Stops rest) :
    ρ.text (bs ++ (t.written ++ rest)) = bs ++ ((ρ.token t).written ++ ρ.text rest) := by
  obtain ⟨c, cs, hwritten, hc⟩ := h.written_eq_cons
  have hhead : ∀ d ∈ (t.written ++ rest).head?, isBlank d = false := by simp [hwritten, hc]
  obtain ⟨htake, hdrop⟩ := takeWhile_dropWhile_of_stops hbs hhead
  have hne : t.written ++ rest ≠ [] := by simp [hwritten]
  rw [text]
  simp only [htake, hdrop, hne, Token.first_written_append_of_shaped h hstop, List.drop_left,
    dite_false]

/-- A renamed text begins like the text, or both begin with a name. -/
theorem head?_text (cs : List Char) : (ρ.text cs).head? = cs.head? ∨
    ∃ c d, cs.head? = some c ∧ (ρ.text cs).head? = some d ∧ isNameStart c = true ∧
      isNameStart d = true := by
  rcases blank_or_token cs with hbs | ⟨bs, t, rest, hbs, ht, hstop, rfl⟩
  · exact .inl (by rw [ρ.text_of_blank hbs])
  · rw [ρ.text_append hbs ht hstop]
    cases bs with
    | cons b bs => exact .inl rfl
    | nil =>
      rw [List.nil_append, List.nil_append]
      cases t with
      | identifier text =>
        obtain ⟨c, cs, htext, hc, -⟩ := id ht
        obtain ⟨d, ds, htext', hd, -⟩ := ρ.shaped_token ht
        refine .inr ⟨c, d, ?_, ?_, hc, hd⟩
        · rw [Token.written, htext]
          rfl
        · rw [token, Token.written, htext']
          rfl
      | number | operator | invalid | endOfLine =>
        obtain ⟨c, cs, hwritten, -⟩ := ht.written_eq_cons
        refine .inl ?_
        rw [ρ.token_of_ne (by simp), hwritten]
        rfl

/-- What follows a token does not prolong it after a renaming either. -/
theorem stops_text (h : t.Stops rest) : (ρ.token t).Stops (ρ.text rest) := by
  rcases ρ.head?_text rest with hsame | ⟨c, d, hc, hd, hstart, hstart'⟩
  · cases t with
    | number | identifier =>
      intro c hc
      rw [hsame] at hc
      exact h c hc
    | operator | invalid | endOfLine => trivial
  · cases t with
    | number text =>
      intro c' hc'
      obtain rfl : d = c' := Option.some.inj (hd.symm.trans hc')
      exact isNumberPart_of_isNameStart hstart'
    | identifier text =>
      have hpart := h c hc
      rw [isNamePart_of_isNameStart hstart] at hpart
      cases hpart
    | operator | invalid | endOfLine => trivial

/-- **A renaming can be undone.** -/
theorem symm_text_text (cs : List Char) : ρ.symm.text (ρ.text cs) = cs := by
  induction cs using text_induction with
  | blank bs hbs => rw [ρ.text_of_blank hbs, ρ.symm.text_of_blank hbs]
  | token bs t rest hbs ht hstop ih =>
    rw [ρ.text_append hbs ht hstop,
      ρ.symm.text_append hbs (ρ.shaped_token ht) (ρ.stops_text hstop), ρ.symm_token_token, ih]

/-- **The tokens of a renamed text are the renamed tokens.** -/
theorem textTokens_text (cs : List Char) :
    textTokens (ρ.text cs) = (textTokens cs).map ρ.token := by
  induction cs using text_induction with
  | blank bs hbs =>
    rw [ρ.text_of_blank hbs, textTokens_of_blank (List.dropWhile_eq_nil_iff.mpr hbs)]
    rfl
  | token bs t rest hbs ht hstop ih =>
    rw [ρ.text_append hbs ht hstop, textTokens_append hbs ht hstop,
      textTokens_append hbs (ρ.shaped_token ht) (ρ.stops_text hstop), ih, List.map_cons]

/-! ## Lines -/

/-- A character that is a token by itself, and that no number and no name goes on with. -/
def Separates (c : Char) : Prop :=
  (Token.invalid c).Shaped ∧ isNumberPart c = false ∧ isNamePart c = false

theorem separates_lineFeed : Separates '\n' :=
  ⟨⟨rfl, rfl, rfl, rfl⟩, rfl, rfl⟩

theorem separates_return : Separates '\r' :=
  ⟨⟨rfl, rfl, rfl, rfl⟩, rfl, rfl⟩

/-- **The texts before and behind such a character are renamed by themselves.** -/
theorem text_append_cons {c : Char} (hc : Separates c) (before behind : List Char) :
    ρ.text (before ++ c :: behind) = ρ.text before ++ c :: ρ.text behind := by
  obtain ⟨hshaped, hnumber, hname⟩ := hc
  induction before using text_induction with
  | blank bs hbs =>
    have hstop : (Token.invalid c).Stops behind := trivial
    rw [ρ.text_of_blank hbs]
    exact ρ.text_append hbs hshaped hstop
  | token bs t rest hbs ht hstop ih =>
    have hstop' : t.Stops (rest ++ c :: behind) := by
      cases rest with
      | nil => cases t <;> simp [Token.Stops, hnumber, hname]
      | cons d rest => exact hstop
    have hsplit : bs ++ (t.written ++ rest) ++ c :: behind =
        bs ++ (t.written ++ (rest ++ c :: behind)) := by
      simp only [List.append_assoc]
    rw [hsplit, ρ.text_append hbs ht hstop', ih, ρ.text_append hbs ht hstop]
    simp only [List.append_assoc]

/-- A renamed text has no such character that the text has not. -/
theorem mem_of_mem_text {c : Char} (hc : Separates c) (h : c ∈ ρ.text cs) : c ∈ cs := by
  obtain ⟨before, behind, heq⟩ := List.append_of_mem h
  rw [← ρ.symm_text_text cs, heq, ρ.symm.text_append_cons hc]
  simp

/-- A renamed line ends in a carriage return exactly if the line does. -/
theorem withoutReturn_text (line : List Char) :
    withoutReturn (ρ.text line) = ρ.text (withoutReturn line) := by
  -- the same holds of every renaming, and so of the one that undoes this one
  have hreturn : ∀ (σ : Renaming) (cs : List Char),
      σ.text (cs ++ ['\r']) = σ.text cs ++ ['\r'] := by
    intro σ cs
    rw [σ.text_append_cons separates_return, σ.text_nil]
  by_cases h : line.getLast? = some '\r'
  · obtain ⟨cs, rfl⟩ := List.getLast?_eq_some_iff.mp h
    rw [hreturn, withoutReturn, withoutReturn, List.getLast?_concat, List.getLast?_concat,
      if_pos rfl, if_pos rfl, List.dropLast_concat, List.dropLast_concat]
  · have hne : (ρ.text line).getLast? ≠ some '\r' := by
      intro hlast
      obtain ⟨cs, hcs⟩ := List.getLast?_eq_some_iff.mp hlast
      apply h
      rw [← ρ.symm_text_text line, hcs, hreturn, List.getLast?_concat]
    rw [withoutReturn, withoutReturn, if_neg h, if_neg hne]

theorem text_eq_nil_iff : ρ.text cs = [] ↔ cs = [] := by
  constructor
  · intro h
    rw [← ρ.symm_text_text cs, h, text_nil]
  · rintro rfl
    exact ρ.text_nil

/-- **The lines of a renamed text are the renamed lines.** -/
theorem textLines_text (failure? : Option String) (cs : List Char) :
    textLines failure? (ρ.text cs) = (textLines failure? cs).map ρ.text := by
  induction hn : cs.length using Nat.strong_induction_on generalizing cs with
  | _ n ih =>
    by_cases hmem : '\n' ∈ cs
    · obtain ⟨line, rest, rfl, hline⟩ := List.eq_append_cons_of_mem hmem
      have hlt : rest.length < n := by
        rw [← hn, List.length_append, List.length_cons]
        omega
      have hline' : '\n' ∉ ρ.text line := fun h => hline (ρ.mem_of_mem_text separates_lineFeed h)
      rw [ρ.text_append_cons separates_lineFeed, textLines_append hline', textLines_append hline,
        ρ.withoutReturn_text, ih rest.length hlt rest rfl, List.map_cons]
    · have hmem' : '\n' ∉ ρ.text cs := fun h => hmem (ρ.mem_of_mem_text separates_lineFeed h)
      rw [textLines_of_notMem hmem', textLines_of_notMem hmem]
      simp only [ne_eq, ρ.text_eq_nil_iff]
      split <;> rfl

end Renaming

end StackCalculator
