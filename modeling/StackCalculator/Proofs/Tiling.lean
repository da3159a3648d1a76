import Mathlib.Algebra.Ring.Nat
import StackCalculator.Proofs.Pending
import StackCalculator.Proofs.Shapes

/-!
# Tilings of a text

The lexemes of a text tile it: each stands in the text at its span, the spans come one after the
other, and whatever they leave out is blank. A lexeme has the shape of its token and nothing behind
it prolongs it, so that only one sequence of lexemes tiles a text.

The same sequence comes out of a rule that does not mention the shapes of tokens: of all patterns
that match the text from where it stands, the longest match is taken; blanks that are matched give
no token, and a character from which nothing can be matched is a token of its own.

## Main definitions

* `Lexeme.StandsIn width p cs x`: a lexeme that stands in a text
* `Tiles width p cs xs`: lexemes that tile a text
* `Matches token? slice`: what the patterns match
* `LongestMatches width p cs xs`: the lexemes that the longest matches give

## Main results

* `blank_or_token`: a text is blank, or a token behind some blanks
* `text_induction`: an induction along the tokens of a text
* `tiles_iff`: the lexemes of a text tile it, and no other lexemes do
* `longestMatches_iff`: the longest matches give the lexemes of a text, and no others
-/

namespace StackCalculator

variable {width : Char → Nat}

/-! ## Extents -/

theorem extent_eq_sum (width : Char → Nat) (cs : List Char) :
    extent width cs = (cs.map width).sum := by
  rw [extent, List.sum_eq_foldl, List.foldl_map]

@[simp]
theorem extent_nil (width : Char → Nat) : extent width [] = 0 := rfl

@[simp]
theorem extent_cons (width : Char → Nat) (c : Char) (cs : List Char) :
    extent width (c :: cs) = width c + extent width cs := by
  simp only [extent_eq_sum, List.map_cons, List.sum_cons]

@[simp]
theorem extent_append (width : Char → Nat) (cs ds : List Char) :
    extent width (cs ++ ds) = extent width cs + extent width ds := by
  simp only [extent_eq_sum, List.map_append, List.sum_append]

theorem extent_pos (hw : ∀ c, 0 < width c) {cs : List Char} (h : cs ≠ []) :
    0 < extent width cs := by
  cases cs with
  | nil => exact absurd rfl h
  | cons c cs =>
    rw [extent_cons]
    exact Nat.add_pos_left (hw c) _

/-- Of two beginnings of a text, the one that is not longer begins the other. -/
theorem exists_append_of_extent_le (hw : ∀ c, 0 < width c) {a b c d : List Char}
    (h : a ++ b = c ++ d) (hle : extent width a ≤ extent width c) :
    ∃ e, c = a ++ e ∧ b = e ++ d := by
  rcases List.append_eq_append_iff.mp h with ⟨e, hc, hb⟩ | ⟨e, ha, hd⟩
  · exact ⟨e, hc, hb⟩
  · -- the other way round, nothing is left between the two
    have he : e = [] := by
      by_contra hne
      have := extent_pos hw hne
      rw [ha, extent_append] at hle
      omega
    rw [he] at ha hd
    exact ⟨[], by rw [List.append_nil, ha, List.append_nil], hd.symm⟩

/-! ## Blanks -/

/-- Behind the blanks of a text comes a character that is no blank. -/
theorem isBlank_of_dropWhile_eq_cons {cs ds : List Char} {c : Char}
    (h : cs.dropWhile isBlank = c :: ds) : isBlank c = false := by
  have hhead := List.head?_dropWhile_not isBlank cs
  rw [h] at hhead
  simpa using hhead

theorem takeWhile_dropWhile_of_stops {p : Char → Bool} {bs rest : List Char}
    (hbs : ∀ b ∈ bs, p b = true) (hrest : ∀ c ∈ rest.head?, p c = false) :
    (bs ++ rest).takeWhile p = bs ∧ (bs ++ rest).dropWhile p = rest := by
  have htake := Token.takeWhile_append_of_stops hbs hrest
  have happend := List.takeWhile_append_dropWhile (p := p) (l := bs ++ rest)
  rw [htake] at happend
  exact ⟨htake, List.append_cancel_left happend⟩

/-- A blank prolongs neither a number nor a name. -/
theorem prolongs_nothing_of_isBlank {c : Char} (h : isBlank c = true) :
    isNumberPart c = false ∧ isNamePart c = false := by
  obtain rfl | rfl : c = ' ' ∨ c = '\t' := by simpa [isBlank] using h
  · decide
  · decide

theorem lexemes_of_blank (width : Char → Nat) (p : Nat) {cs : List Char}
    (h : ∀ c ∈ cs, isBlank c = true) : lexemes width p cs = [] := by
  rw [lexemes]
  exact dif_pos (List.dropWhile_eq_nil_iff.mpr h)

namespace Token

/-- Nothing behind the first token of a text prolongs it. -/
theorem stops_first (cs : List Char) : (first cs).Stops (cs.drop (first cs).written.length) := by
  have hstop : ∀ p : Char → Bool, ∀ ds : List Char, ∀ d ∈ (ds.drop (ds.takeWhile p).length).head?,
      p d = false := by
    intro p ds d hd
    rw [drop_length_takeWhile] at hd
    have hhead := List.head?_dropWhile_not p ds
    rw [hd] at hhead
    simpa using hhead
  cases cs with
  | nil => trivial
  | cons c cs =>
    simp only [first]
    split
    · simpa [Stops, written] using hstop isNumberPart cs
    · split
      · simpa [Stops, written] using hstop isNamePart cs
      · split <;> trivial

/-- Nor does it prolong any other token. -/
theorem stops_of_isBlank {c : Char} (h : isBlank c = true) (t : Token) (cs : List Char) :
    t.Stops (c :: cs) := by
  obtain ⟨hnumber, hname⟩ := prolongs_nothing_of_isBlank h
  cases t with
  | number => simpa [Stops] using hnumber
  | identifier => simpa [Stops] using hname
  | operator | invalid | endOfLine => trivial

end Token

/-- **A text is blank, or a token behind some blanks** with another text behind it, which does not
prolong the token. -/
theorem blank_or_token (cs : List Char) : (∀ b ∈ cs, isBlank b = true) ∨
    ∃ (bs : List Char) (t : Token) (rest : List Char), (∀ b ∈ bs, isBlank b = true) ∧ t.Shaped ∧
      t.Stops rest ∧ cs = bs ++ (t.written ++ rest) := by
  cases hrest : cs.dropWhile isBlank with
  | nil => exact .inl (List.dropWhile_eq_nil_iff.mp hrest)
  | cons c ds =>
    let t := Token.first (c :: ds)
    refine .inr ⟨cs.takeWhile isBlank, t, (c :: ds).drop t.written.length,
      fun b => List.mem_takeWhile_imp, Token.shaped_first ds (isBlank_of_dropWhile_eq_cons hrest),
      Token.stops_first (c :: ds), ?_⟩
    rw [Token.written_first_append, ← hrest, List.takeWhile_append_dropWhile]

/-- An induction along the tokens of a text. -/
theorem text_induction {motive : List Char → Prop}
    (blank : ∀ bs : List Char, (∀ b ∈ bs, isBlank b = true) → motive bs)
    (token : ∀ (bs : List Char) (t : Token) (rest : List Char),
      (∀ b ∈ bs, isBlank b = true) → t.Shaped → t.Stops rest → motive rest →
        motive (bs ++ (t.written ++ rest)))
    (cs : List Char) : motive cs := by
  induction hn : cs.length using Nat.strong_induction_on generalizing cs with
  | _ n ih =>
    rcases blank_or_token cs with hbs | ⟨bs, t, rest, hbs, ht, hstop, rfl⟩
    · exact blank cs hbs
    · obtain ⟨c, ds, hwritten, -⟩ := ht.written_eq_cons
      have hlt : rest.length < n := by
        simp only [← hn, hwritten, List.length_append, List.length_cons]
        omega
      exact token bs t rest hbs ht hstop (ih rest.length hlt rest rfl)

/-- Blanks before a text only move it. -/
theorem lexemes_append_of_blank (p : Nat) {bs : List Char} (hbs : ∀ b ∈ bs, isBlank b = true)
    (rest : List Char) :
    lexemes width p (bs ++ rest) = lexemes width (p + extent width bs) rest := by
  rw [lexemes, lexemes]
  simp only [List.dropWhile_append_of_pos hbs, List.takeWhile_append_of_pos hbs, extent_append,
    Nat.add_assoc]

/-- **A token of its shape behind some blanks** is the next lexeme of a text, if nothing prolongs
it. -/
theorem lexemes_append {bs : List Char} (hbs : ∀ b ∈ bs, isBlank b = true) {t : Token}
    (h : t.Shaped) {rest : List Char} (hstop : t.Stops rest) (p : Nat) :
    lexemes width p (bs ++ (t.written ++ rest)) =
      ⟨t, p + extent width bs, p + extent width bs + extent width t.written⟩ ::
        lexemes width (p + extent width bs + extent width t.written) rest := by
  obtain ⟨c, cs, hwritten, hc⟩ := h.written_eq_cons
  have hhead : ∀ d ∈ (t.written ++ rest).head?, isBlank d = false := by simp [hwritten, hc]
  obtain ⟨htake, hdrop⟩ := takeWhile_dropWhile_of_stops hbs hhead
  have hne : t.written ++ rest ≠ [] := by simp [hwritten]
  rw [lexemes]
  simp only [htake, hdrop, hne, Token.first_written_append_of_shaped h hstop, List.drop_left,
    dite_false]

theorem lexemes_written_append (width : Char → Nat) {t : Token} (h : t.Shaped) {rest : List Char}
    (hstop : t.Stops rest) (p : Nat) : lexemes width p (t.written ++ rest) =
      ⟨t, p, p + extent width t.written⟩ :: lexemes width (p + extent width t.written) rest := by
  have hnil : ∀ b ∈ ([] : List Char), isBlank b = true := by simp
  simpa using lexemes_append hnil h hstop p

/-- A token of its shape behind some blanks is the first token of a text, if nothing prolongs it. -/
theorem textTokens_append {bs : List Char} (hbs : ∀ b ∈ bs, isBlank b = true) {t : Token}
    (h : t.Shaped) {rest : List Char} (hstop : t.Stops rest) :
    textTokens (bs ++ (t.written ++ rest)) = t :: textTokens rest := by
  rw [textTokens, lexemes_append hbs h hstop, List.map_cons, map_token_lexemes]

/-- Blanks before a text change none of its tokens. -/
theorem textTokens_append_of_blank {bs : List Char} (hbs : ∀ b ∈ bs, isBlank b = true)
    (rest : List Char) : textTokens (bs ++ rest) = textTokens rest := by
  rw [textTokens, lexemes_append_of_blank 0 hbs, map_token_lexemes]

/-- The characters of a token are characters of the text. -/
theorem mem_of_mem_textTokens {cs : List Char} {t : Token} {c : Char} (ht : t ∈ textTokens cs)
    (hc : c ∈ t.written) : c ∈ cs := by
  induction cs using text_induction with
  | blank bs hbs =>
    rw [textTokens_of_blank (List.dropWhile_eq_nil_iff.mpr hbs)] at ht
    cases ht
  | token bs u rest hbs hu hstop ih =>
    rw [textTokens_append hbs hu hstop] at ht
    rcases List.mem_cons.mp ht with rfl | ht
    · exact List.mem_append_right _ (List.mem_append_left _ hc)
    · exact List.mem_append_right _ (List.mem_append_right _ (ih ht))

/-! ## Tilings -/

/-- **A lexeme that stands in a text** which begins at the position `p`: its span is that of its
token, which has its shape and is not prolonged by what follows. -/
def Lexeme.StandsIn (width : Char → Nat) (p : Nat) (cs : List Char) (x : Lexeme) : Prop :=
  ∃ before behind, cs = before ++ (x.token.written ++ behind) ∧
    x.start = p + extent width before ∧ x.stop = x.start + extent width x.token.written ∧
    x.token.Shaped ∧ x.token.Stops behind

/-- **Lexemes that tile a text** which begins at the position `p`. -/
structure Tiles (width : Char → Nat) (p : Nat) (cs : List Char) (xs : List Lexeme) : Prop where
  stands : ∀ x ∈ xs, x.StandsIn width p cs
  /-- No span is empty. -/
  start_lt : ∀ x ∈ xs, x.start < x.stop
  /-- The spans come one after the other. -/
  ordered : xs.Pairwise fun x y => x.stop ≤ y.start
  /-- A character outside all spans is blank. -/
  blank : ∀ before c behind, cs = before ++ c :: behind →
    (∀ x ∈ xs, ¬ (x.start ≤ p + extent width before ∧ p + extent width before < x.stop)) →
    isBlank c = true

section Tiles

variable {p : Nat} {cs : List Char}

/-- A text is tiled by nothing if it is blank. -/
theorem tiles_nil_iff : Tiles width p cs [] ↔ ∀ c ∈ cs, isBlank c = true := by
  constructor
  · intro h c hc
    obtain ⟨before, behind, rfl⟩ := List.append_of_mem hc
    exact h.blank before c behind rfl (by simp)
  · intro h
    refine ⟨by simp, by simp, .nil, ?_⟩
    rintro before c behind rfl -
    exact h c (by simp)

variable (hw : ∀ c, 0 < width c)

include hw

/-- A lexeme that stands in a text stands behind some of it, unless it begins earlier. -/
theorem Lexeme.standsIn_append_iff {ahead behind : List Char} {x : Lexeme} :
    x.StandsIn width (p + extent width ahead) behind ↔
      x.StandsIn width p (ahead ++ behind) ∧ p + extent width ahead ≤ x.start := by
  constructor
  · rintro ⟨before, after, rfl, hstart, hstop, hshape⟩
    refine ⟨⟨ahead ++ before, after, by rw [List.append_assoc], ?_, hstop, hshape⟩, ?_⟩
    · rw [hstart, extent_append, Nat.add_assoc]
    · omega
  · rintro ⟨⟨before, after, heq, hstart, hstop, hshape⟩, hle⟩
    have hshort : extent width ahead ≤ extent width before := by omega
    obtain ⟨more, rfl, rfl⟩ := exists_append_of_extent_le hw heq hshort
    exact ⟨more, after, rfl, by rw [hstart, extent_append, Nat.add_assoc], hstop, hshape⟩

/-- The lexemes behind the first one tile the text behind it. -/
theorem Tiles.tail {ahead behind : List Char} {x : Lexeme} {xs : List Lexeme}
    (h : Tiles width p (ahead ++ behind) (x :: xs)) (hstop : x.stop = p + extent width ahead) :
    Tiles width x.stop behind xs := by
  obtain ⟨hfirst, hordered⟩ := List.pairwise_cons.mp h.ordered
  refine ⟨fun y hy => ?_, fun y hy => h.start_lt y (List.mem_cons_of_mem _ hy), hordered, ?_⟩
  · rw [hstop]
    refine (Lexeme.standsIn_append_iff hw).mpr ⟨h.stands y (List.mem_cons_of_mem _ hy), ?_⟩
    exact hstop ▸ hfirst y hy
  · rintro before c after rfl hout
    refine h.blank (ahead ++ before) c after (by rw [List.append_assoc]) fun y hy => ?_
    rw [extent_append, ← Nat.add_assoc, ← hstop]
    rcases List.mem_cons.mp hy with rfl | hy
    · omega
    · exact hout y hy

/-- A lexeme behind some blanks and the lexemes behind it tile a text together. -/
theorem Tiles.cons {bs behind : List Char} {t : Token} {xs : List Lexeme}
    (hbs : ∀ b ∈ bs, isBlank b = true) (ht : t.Shaped) (hstops : t.Stops behind)
    (h : Tiles width (p + extent width bs + extent width t.written) behind xs) :
    Tiles width p (bs ++ (t.written ++ behind))
      (⟨t, p + extent width bs, p + extent width bs + extent width t.written⟩ :: xs) := by
  obtain ⟨c, cs, hwritten, -⟩ := ht.written_eq_cons
  have hpos : 0 < extent width t.written := extent_pos hw (by simp [hwritten])
  have hahead : p + extent width bs + extent width t.written =
      p + extent width (bs ++ t.written) := by
    rw [extent_append, Nat.add_assoc]
  have hsplit : bs ++ (t.written ++ behind) = (bs ++ t.written) ++ behind := by
    rw [List.append_assoc]
  rw [hahead] at h
  refine ⟨?_, ?_, ?_, ?_⟩
  · intro y hy
    rcases List.mem_cons.mp hy with rfl | hy
    · exact ⟨bs, behind, rfl, rfl, rfl, ht, hstops⟩
    · rw [hsplit]
      exact ((Lexeme.standsIn_append_iff hw).mp (h.stands y hy)).1
  · intro y hy
    rcases List.mem_cons.mp hy with rfl | hy
    · exact Nat.lt_add_of_pos_right hpos
    · exact h.start_lt y hy
  · refine List.pairwise_cons.mpr ⟨fun y hy => ?_, h.ordered⟩
    exact hahead ▸ ((Lexeme.standsIn_append_iff hw).mp (h.stands y hy)).2
  · intro before d after heq hout
    have hfirst := hout _ List.mem_cons_self
    dsimp only at hfirst
    by_cases hlt : extent width before < extent width bs
    · -- before the span, among the blanks
      obtain ⟨more, rfl, hmore⟩ := exists_append_of_extent_le hw heq.symm hlt.le
      cases more with
      | nil => simp at hlt
      | cons e more =>
        obtain ⟨rfl, -⟩ := List.cons.inj hmore
        exact hbs d (by simp)
    · -- behind the span, in the text that the others tile
      have hle : extent width (bs ++ t.written) ≤ extent width before := by
        rw [extent_append]
        omega
      rw [hsplit] at heq
      obtain ⟨more, rfl, hmore⟩ := exists_append_of_extent_le hw heq hle
      refine h.blank more d after hmore fun y hy => ?_
      have := hout y (List.mem_cons_of_mem _ hy)
      rwa [extent_append, ← Nat.add_assoc] at this

/-- **The lexemes of a text tile it.** -/
theorem tiles_lexemes (p : Nat) (cs : List Char) : Tiles width p cs (lexemes width p cs) := by
  induction cs using text_induction generalizing p with
  | blank bs hbs =>
    rw [lexemes_of_blank width p hbs]
    exact tiles_nil_iff.mpr hbs
  | token bs t rest hbs ht hstop ih =>
    rw [lexemes_append hbs ht hstop]
    exact Tiles.cons hw hbs ht hstop (ih _)

/-- **No other lexemes tile a text.** -/
theorem Tiles.eq_lexemes {xs : List Lexeme} (h : Tiles width p cs xs) :
    xs = lexemes width p cs := by
  induction xs generalizing p cs with
  | nil => rw [lexemes_of_blank width p (tiles_nil_iff.mp h)]
  | cons x xs ih =>
    obtain ⟨before, behind, rfl, hstart, hstop, hshaped, hstops⟩ := h.stands x List.mem_cons_self
    have hbefore : ∀ b ∈ before, isBlank b = true := by
      intro b hb
      obtain ⟨b₁, b₂, rfl⟩ := List.append_of_mem hb
      refine h.blank b₁ b (b₂ ++ (x.token.written ++ behind)) (by simp) fun y hy => ?_
      have hlt : p + extent width b₁ < x.start := by
        rw [hstart, extent_append, extent_cons]
        have := hw b
        omega
      rcases List.mem_cons.mp hy with rfl | hy
      · omega
      · have := (List.pairwise_cons.mp h.ordered).1 y hy
        have := h.start_lt x List.mem_cons_self
        omega
    have hahead : x.stop = p + extent width (before ++ x.token.written) := by
      rw [hstop, hstart, extent_append, Nat.add_assoc]
    rw [← List.append_assoc] at h
    have htail := ih (h.tail hw hahead)
    rw [lexemes_append hbefore hshaped hstops, ← hstart, ← hstop, ← htail]

/-- **The lexemes of a text tile it, and no other lexemes do.** -/
theorem tiles_iff {xs : List Lexeme} : Tiles width p cs xs ↔ xs = lexemes width p cs :=
  ⟨fun h => h.eq_lexemes hw, fun h => h ▸ tiles_lexemes hw p cs⟩

end Tiles

/-! ## Longest matches -/

/-- **What the patterns match**: blanks, which give no token, or the text of a token. -/
inductive Matches : Option Token → List Char → Prop
  | blanks {cs : List Char} (hne : cs ≠ []) (h : ∀ c ∈ cs, isBlank c = true) : Matches none cs
  | number {c : Char} {cs : List Char} (hc : c.isDigit = true)
      (hcs : ∀ d ∈ cs, isNumberPart d = true) :
      Matches (some (.number (String.ofList (c :: cs)))) (c :: cs)
  | identifier {c : Char} {cs : List Char} (hc : isNameStart c = true)
      (hcs : ∀ d ∈ cs, isNamePart d = true) :
      Matches (some (.identifier (String.ofList (c :: cs)))) (c :: cs)
  | operator (op : Operator) : Matches (some (.operator op)) [op.symbol]

/-- **The longest match** at the head of a text. -/
def IsLongest (token? : Option Token) (slice rest : List Char) : Prop :=
  Matches token? slice ∧ ∀ token?' slice' rest', slice ++ rest = slice' ++ rest' →
    Matches token?' slice' → slice'.length ≤ slice.length

/-- **The lexemes that the longest matches give**, in a text that begins at the position `p`. -/
inductive LongestMatches (width : Char → Nat) : Nat → List Char → List Lexeme → Prop
  | done (p : Nat) : LongestMatches width p [] []
  | skip {p : Nat} {slice rest : List Char} {xs : List Lexeme} (h : IsLongest none slice rest)
      (hrest : LongestMatches width (p + extent width slice) rest xs) :
      LongestMatches width p (slice ++ rest) xs
  | take {p : Nat} {t : Token} {slice rest : List Char} {xs : List Lexeme}
      (h : IsLongest (some t) slice rest)
      (hrest : LongestMatches width (p + extent width slice) rest xs) :
      LongestMatches width p (slice ++ rest) (⟨t, p, p + extent width slice⟩ :: xs)
  | refuse {p : Nat} {c : Char} {rest : List Char} {xs : List Lexeme}
      (h : ∀ token? slice rest', c :: rest = slice ++ rest' → ¬ Matches token? slice)
      (hrest : LongestMatches width (p + width c) rest xs) :
      LongestMatches width p (c :: rest) (⟨.invalid c, p, p + width c⟩ :: xs)

/-- What a pattern matches for a token has the shape of that token. -/
theorem Matches.shaped {t : Token} {slice : List Char} (h : Matches (some t) slice) :
    t.Shaped ∧ slice = t.written := by
  cases h with
  | number hc hcs => exact ⟨⟨_, _, String.toList_ofList, hc, hcs⟩, String.toList_ofList.symm⟩
  | identifier hc hcs => exact ⟨⟨_, _, String.toList_ofList, hc, hcs⟩, String.toList_ofList.symm⟩
  | operator op => exact ⟨trivial, rfl⟩

/-- Unless it is a single character without a pattern, a token is matched for its shape. -/
theorem Token.Shaped.matches {t : Token} (h : t.Shaped) (ht : ∀ c, t ≠ .invalid c) :
    Matches (some t) t.written := by
  cases t with
  | number text =>
    obtain ⟨c, cs, htext, hc, hcs⟩ := h
    have := Matches.number hc hcs
    rwa [← htext, String.ofList_toList] at this
  | identifier text =>
    obtain ⟨c, cs, htext, hc, hcs⟩ := h
    have := Matches.identifier hc hcs
    rwa [← htext, String.ofList_toList] at this
  | operator op => exact .operator op
  | invalid c => exact absurd rfl (ht c)
  | endOfLine => exact h.elim

/-- **No token of its shape is longer than the first one**, if both stand at the head of a text. -/
theorem Token.Shaped.length_le_first {t : Token} (h : t.Shaped) (rest : List Char) :
    t.written.length ≤ (first (t.written ++ rest)).written.length := by
  obtain ⟨c, cs, hwritten, -⟩ := h.written_eq_cons
  cases t with
  | number text =>
    obtain ⟨c, cs, htext, hc, hcs⟩ := h
    simp [written, htext, first, hc, List.takeWhile_append_of_pos hcs]
  | identifier text =>
    obtain ⟨c, cs, htext, hc, hcs⟩ := h
    simp [written, htext, first, isDigit_of_isNameStart hc, hc, List.takeWhile_append_of_pos hcs]
  | operator op | invalid c =>
    exact List.length_pos_iff.mpr (written_first_ne_nil (by simp [written]))
  | endOfLine => exact h.elim

/-- Blanks are the longest match as far as they go. -/
theorem isLongest_blanks {bs rest : List Char} (hne : bs ≠ []) (hbs : ∀ b ∈ bs, isBlank b = true)
    (hrest : ∀ c ∈ rest.head?, isBlank c = false) : IsLongest none bs rest := by
  refine ⟨.blanks hne hbs, fun token? slice rest' heq hmatch => ?_⟩
  by_contra! hlt
  have hle : extent (fun _ => 1) bs ≤ extent (fun _ => 1) slice := by
    simpa only [extent_one] using hlt.le
  obtain ⟨more, rfl, rfl⟩ := exists_append_of_extent_le (fun _ => Nat.one_pos) heq hle
  cases token? with
  | none =>
    cases hmatch with
    | blanks _ hall =>
      cases more with
      | nil => simp at hlt
      | cons c more =>
        have := hall c (by simp)
        rw [hrest c rfl] at this
        cases this
  | some t =>
    obtain ⟨hshaped, hwritten⟩ := hmatch.shaped
    obtain ⟨c, cs, hcons, hc⟩ := hshaped.written_eq_cons
    cases bs with
    | nil => exact hne rfl
    | cons b bs =>
      obtain ⟨rfl, -⟩ := List.cons.inj (hwritten.trans hcons)
      rw [hbs b List.mem_cons_self] at hc
      cases hc

/-- No blanks are matched where the text does not begin with one. -/
theorem not_matches_blanks {c : Char} {cs slice rest : List Char} (hc : isBlank c = false)
    (heq : c :: cs = slice ++ rest) : ¬ Matches none slice := by
  rintro ⟨hne, hall⟩
  cases slice with
  | nil => exact hne rfl
  | cons b bs =>
    obtain ⟨rfl, -⟩ := List.cons.inj heq
    rw [hall c List.mem_cons_self] at hc
    cases hc

/-- The first token of a text is the longest match, if it is matched at all. -/
theorem isLongest_first {c : Char} {cs : List Char} (hc : isBlank c = false)
    (ht : ∀ d, Token.first (c :: cs) ≠ .invalid d) :
    IsLongest (some (Token.first (c :: cs))) (Token.first (c :: cs)).written
      ((c :: cs).drop (Token.first (c :: cs)).written.length) := by
  refine ⟨(Token.shaped_first cs hc).matches ht, fun token? slice rest' heq hmatch => ?_⟩
  rw [Token.written_first_append] at heq
  cases token? with
  | none => exact absurd hmatch (not_matches_blanks hc heq)
  | some t =>
    obtain ⟨hshaped, rfl⟩ := hmatch.shaped
    rw [heq]
    exact hshaped.length_le_first rest'

/-- Nothing behind the longest match prolongs it. -/
theorem IsLongest.stops {t : Token} {slice rest : List Char} (h : IsLongest (some t) slice rest) :
    t.Stops rest := by
  obtain ⟨hmatch, hlongest⟩ := h
  -- one more character would be a longer match
  have hmore : ∀ c ds u, rest = c :: ds → ¬ Matches (some u) (slice ++ [c]) := by
    rintro c ds u rfl hlonger
    have hle := hlongest _ _ ds (by simp) hlonger
    rw [List.length_append, List.length_singleton] at hle
    exact Nat.not_succ_le_self _ hle
  cases hmatch with
  | operator op => trivial
  | number hc hcs =>
    intro c hmem
    obtain ⟨ds, hrest⟩ := List.head?_eq_some_iff.mp hmem
    refine eq_false_of_ne_true fun hpart => hmore c ds _ hrest (.number hc fun d hd => ?_)
    rcases List.mem_append.mp hd with hd | hd
    · exact hcs d hd
    · exact List.mem_singleton.mp hd ▸ hpart
  | identifier hc hcs =>
    intro c hmem
    obtain ⟨ds, hrest⟩ := List.head?_eq_some_iff.mp hmem
    refine eq_false_of_ne_true fun hpart => hmore c ds _ hrest (.identifier hc fun d hd => ?_)
    rcases List.mem_append.mp hd with hd | hd
    · exact hcs d hd
    · exact List.mem_singleton.mp hd ▸ hpart

/-- A character from which nothing can be matched has the shape of a token of its own. -/
theorem shaped_invalid_of_not_matches {c : Char} {rest : List Char}
    (h : ∀ token? slice rest', c :: rest = slice ++ rest' → ¬ Matches token? slice) :
    (Token.invalid c).Shaped := by
  have hnone : ∀ token?, ¬ Matches token? [c] := fun token? => h token? [c] rest rfl
  refine ⟨eq_false_of_ne_true fun hc => ?_, eq_false_of_ne_true fun hc => ?_,
    eq_false_of_ne_true fun hc => ?_, ?_⟩
  · exact hnone _ (.blanks (by simp) (by simpa using hc))
  · exact hnone _ (.number hc (by simp))
  · exact hnone _ (.identifier hc (by simp))
  · cases hop : Operator.ofSymbol? c with
    | none => rfl
    | some op =>
      obtain rfl := Operator.ofSymbol?_eq_some_iff.mp hop
      exact absurd (.operator op) (hnone _)

/-- Nothing can be matched from a character that has the shape of a token of its own. -/
theorem not_matches_of_shaped_invalid {c : Char} {cs : List Char} (h : (Token.invalid c).Shaped)
    (token? : Option Token) (slice rest : List Char) (heq : c :: cs = slice ++ rest) :
    ¬ Matches token? slice := by
  obtain ⟨hblank, hdigit, hname, hop⟩ := h
  intro hmatch
  cases token? with
  | none => exact not_matches_blanks hblank heq hmatch
  | some t =>
    cases hmatch with
    | number hc =>
      obtain ⟨rfl, -⟩ := List.cons.inj heq
      rw [hc] at hdigit
      cases hdigit
    | identifier hc =>
      obtain ⟨rfl, -⟩ := List.cons.inj heq
      rw [hc] at hname
      cases hname
    | operator op =>
      obtain ⟨rfl, -⟩ := List.cons.inj heq
      rw [Operator.ofSymbol?_symbol] at hop
      cases hop

/-- The longest matches behind some blanks. -/
theorem LongestMatches.blanks {p : Nat} {bs rest : List Char} {xs : List Lexeme}
    (hbs : ∀ b ∈ bs, isBlank b = true) (hrest : ∀ c ∈ rest.head?, isBlank c = false)
    (h : LongestMatches width (p + extent width bs) rest xs) :
    LongestMatches width p (bs ++ rest) xs := by
  cases bs with
  | nil => exact h
  | cons b bs => exact .skip (isLongest_blanks (List.cons_ne_nil b bs) hbs hrest) h

/-- The longest matches from the first token of a text. -/
theorem LongestMatches.first {p : Nat} {c : Char} {cs : List Char} {xs : List Lexeme}
    (hc : isBlank c = false)
    (h : LongestMatches width (p + extent width (Token.first (c :: cs)).written)
      ((c :: cs).drop (Token.first (c :: cs)).written.length) xs) :
    LongestMatches width p (c :: cs)
      (⟨Token.first (c :: cs), p, p + extent width (Token.first (c :: cs)).written⟩ :: xs) := by
  have happend := Token.written_first_append (c :: cs)
  have hshaped := Token.shaped_first cs hc
  by_cases hinvalid : ∃ d, Token.first (c :: cs) = .invalid d
  · obtain ⟨d, hd⟩ := hinvalid
    rw [hd] at h happend hshaped ⊢
    obtain ⟨rfl, -⟩ := List.cons.inj happend
    simp only [Token.written, extent_cons, extent_nil, Nat.add_zero] at h ⊢
    exact .refuse (not_matches_of_shaped_invalid hshaped) h
  · have := LongestMatches.take (isLongest_first hc (not_exists.mp hinvalid)) h
    rwa [happend] at this

/-- **The longest matches give the lexemes of a text.** -/
theorem longestMatches_lexemes (width : Char → Nat) (p : Nat) (cs : List Char) :
    LongestMatches width p cs (lexemes width p cs) := by
  fun_induction lexemes width p cs with
  | case1 p cs rest h =>
    have hdone : LongestMatches width (p + extent width cs) [] [] := .done _
    have := hdone.blanks (List.dropWhile_eq_nil_iff.mp h) (by simp)
    rwa [List.append_nil] at this
  | case2 p cs rest h token begin stop ih =>
    have hbs : ∀ b ∈ cs.takeWhile isBlank, isBlank b = true := fun b => List.mem_takeWhile_imp
    obtain ⟨c, ds, hrest⟩ : ∃ c ds, rest = c :: ds := List.exists_cons_of_ne_nil h
    have hc : isBlank c = false := isBlank_of_dropWhile_eq_cons hrest
    have htoken : LongestMatches width begin rest (⟨token, begin, stop⟩ :: lexemes width stop
        (rest.drop token.written.length)) := by
      simp only [token, stop, hrest] at ih ⊢
      exact ih.first hc
    have := htoken.blanks hbs (by simp [hrest, hc])
    rwa [List.takeWhile_append_dropWhile] at this

/-- **They give no others.** -/
theorem LongestMatches.eq_lexemes {p : Nat} {cs : List Char} {xs : List Lexeme}
    (h : LongestMatches width p cs xs) : xs = lexemes width p cs := by
  induction h with
  | done p => rw [lexemes_of_blank width p (by simp)]
  | skip h _ ih =>
    cases h.1 with
    | blanks _ hbs => rw [ih, lexemes_append_of_blank _ hbs]
  | @take p t slice rest xs h _ ih =>
    obtain ⟨hshaped, rfl⟩ := h.1.shaped
    rw [ih, lexemes_written_append width hshaped h.stops]
  | @refuse p c rest xs h _ ih =>
    have hstop : (Token.invalid c).Stops rest := trivial
    have := lexemes_written_append width (shaped_invalid_of_not_matches h) hstop p
    rw [ih]
    simpa [Token.written] using this.symm

/-- **The longest matches give the lexemes of a text, and no others.** -/
theorem longestMatches_iff {p : Nat} {cs : List Char} {xs : List Lexeme} :
    LongestMatches width p cs xs ↔ xs = lexemes width p cs :=
  ⟨fun h => h.eq_lexemes, fun h => h ▸ longestMatches_lexemes width p cs⟩

/-- **The lexemes of a text are the only ones that tile it by bytes**, and the ones that the longest
matches give. -/
theorem tiles_iff_longestMatches (cs : List Char) (xs : List Lexeme) :
    (Tiles Char.utf8Size 0 cs xs ↔ xs = lexemes Char.utf8Size 0 cs) ∧
      (LongestMatches Char.utf8Size 0 cs xs ↔ xs = lexemes Char.utf8Size 0 cs) :=
  ⟨tiles_iff Char.utf8Size_pos, longestMatches_iff⟩

end StackCalculator
