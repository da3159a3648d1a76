import StackCalculator.Proofs.Encoding

/-!
# How malformed bytes are read

Bytes that are no UTF-8 are read as well as they can be: characters where there are any, and one
replacement character for each malformed part, which is the longest part that some character begins
with, or a single byte where no character begins with it. There is one way to read bytes so, and it
is what the decoder does.

Since a malformed part holds no character, ASCII characters are read from their own bytes only: no
line feed and no carriage return comes out of other bytes, and none of them is lost.

## Main definitions

* `encode text`: the bytes of a text
* `Malformed p bytes`: the malformed part at the beginning of some bytes
* `ReadsAs bytes text`: what bytes are read as

## Main results

* `readsAs_iff`: decoding reads bytes in the one way that there is
* `decode_encode`: decoding undoes encoding
* `ReadsAs.mem_of_mem`: an ASCII character is read from its own byte
-/

namespace StackCalculator.Utf8

variable {c : Char} {q : Partial} {b : UInt8} {p : List UInt8}

/-! ## Reading bytes -/

/-- Some character begins with these bytes. -/
def Begins (p : List UInt8) : Prop :=
  ∃ c, p <+: String.utf8EncodeChar c

/-- **A malformed part of some bytes**: the bytes begin with no character, and the part is the
longest one that a character could begin with, or one byte if there is none. -/
structure Malformed (p bytes : List UInt8) : Prop where
  isPrefix : p <+: bytes
  noChar : ∀ c, ¬ String.utf8EncodeChar c <+: bytes
  begins : p.length = 1 ∨ p ≠ [] ∧ Begins p
  longest : ∀ p', p' <+: bytes → Begins p' → p'.length ≤ p.length

/-- **What bytes are read as**: characters as they are, and each malformed part as one
replacement. -/
inductive ReadsAs : List UInt8 → List Char → Prop where
  | nil : ReadsAs [] []
  | char (c : Char) {bytes : List UInt8} {text : List Char} (h : ReadsAs bytes text) :
    ReadsAs (String.utf8EncodeChar c ++ bytes) (c :: text)
  | malformed {p bytes : List UInt8} {text : List Char} (hp : Malformed p (p ++ bytes))
    (h : ReadsAs bytes text) : ReadsAs (p ++ bytes) (replacement :: text)

/-! ## The decoder reads bytes so -/

/-- A character begun is what it is called. -/
theorem begins_of_run (h : run none p = ([], some q)) : Begins p := by
  obtain ⟨a, p', q₀, rfl, hlead, hrun⟩ := exists_lead_of_run h
  obtain ⟨rest, v, hrest⟩ := (takes_of_run hrun (open_of_lead hlead)).1.exists_takes
  exact ⟨Char.ofNat v, rest, (encodeChar_of_run h hrest).symm⟩

/-- Bytes begin with one character at most. -/
theorem utf8EncodeChar_prefix_unique {c' : Char} {bytes : List UInt8}
    (h : String.utf8EncodeChar c <+: bytes) (h' : String.utf8EncodeChar c' <+: bytes) : c = c' := by
  have hread : ∀ c, String.utf8EncodeChar c <+: bytes → (decodeFrom none bytes).head? = some c := by
    rintro c ⟨rest, rfl⟩
    rw [decodeFrom_append, run_encodeChar]
    rfl
  exact Option.some.inj ((hread c h).symm.trans (hread c' h'))

/-- What a character could begin with, where one begun is broken off, has been read. -/
theorem isPrefix_of_broken (h : run none p = ([], some q)) {bytes p' : List UInt8}
    (hbroken : ∀ b ∈ bytes.head?, ¬ (q.low ≤ b ∧ b ≤ q.high)) (hp' : p' <+: p ++ bytes)
    (hbegins : Begins p') : p' <+: p := by
  obtain ⟨c, rest, hc⟩ := hbegins
  obtain ⟨behind, hbehind⟩ := hp'
  rcases List.append_eq_append_iff.mp hbehind with ⟨more, rfl, -⟩ | ⟨more, rfl, rfl⟩
  · exact List.prefix_append _ _
  · cases more with
    | nil => simp
    | cons b more =>
      -- the character would go on with the byte that breaks it off
      have hp : p ≠ [] := fun hnil => by rw [hnil] at h; cases h
      have hbytes : String.utf8EncodeChar c = p ++ b :: (more ++ rest) := by rw [← hc]; simp
      obtain ⟨q', hrun, htakes⟩ := exists_run_of_encodeChar hbytes hp
      obtain rfl : q = q' := Option.some.inj (congrArg Prod.snd (h.symm.trans hrun))
      exact absurd htakes.bounds (hbroken b rfl)

/-- A character begun, where it is broken off. -/
theorem malformed_of_broken (h : run none p = ([], some q)) {bytes : List UInt8}
    (hbroken : ∀ b ∈ bytes.head?, ¬ (q.low ≤ b ∧ b ≤ q.high)) : Malformed p (p ++ bytes) := by
  have hp : p ≠ [] := fun hnil => by rw [hnil] at h; cases h
  refine ⟨List.prefix_append _ _, fun c hc => ?_, .inr ⟨hp, begins_of_run h⟩,
    fun p' hp' hbegins => (isPrefix_of_broken h hbroken hp' hbegins).length_le⟩
  obtain ⟨rest, rfl⟩ := isPrefix_of_broken h hbroken hc ⟨c, List.prefix_rfl⟩
  rw [run_append, run_encodeChar] at h
  cases h

/-- A byte that begins nothing. -/
theorem malformed_of_lead (hlead : (lead b).2 = none) (hb : 0x80 ≤ b.toNat) (bytes : List UInt8) :
    Malformed [b] (b :: bytes) := by
  have hnil : ∀ p', p' <+: b :: bytes → Begins p' → p' = [] := by
    rintro p' hp' ⟨c, rest, hc⟩
    rcases List.prefix_cons_iff.mp hp' with rfl | ⟨more, rfl, -⟩
    · rfl
    · rcases utf8EncodeChar_eq_cons_iff.mp hc.symm with ⟨hb', -⟩ | ⟨q, hq, -⟩
      · exact absurd hb (Nat.not_le_of_lt hb')
      · cases hlead.symm.trans hq
  refine ⟨⟨bytes, rfl⟩, fun c hc => ?_, .inl rfl, fun p' hp' hbegins => ?_⟩
  · exact String.utf8EncodeChar_ne_nil (hnil _ hc ⟨c, List.prefix_rfl⟩)
  · rw [hnil p' hp' hbegins]
    exact Nat.zero_le _

/-- The decoder reads bytes so, with a character begun or without one. -/
theorem readsAs_decodeFrom (bytes : List UInt8) : ReadsAs bytes (decodeFrom none bytes) ∧
    ∀ p q, run none p = ([], some q) → ReadsAs (p ++ bytes) (decodeFrom (some q) bytes) := by
  -- what is read behind a character begun depends on what is read afresh, and so both go together
  induction bytes with
  | nil =>
    refine ⟨.nil, fun p q h => ?_⟩
    exact .malformed (malformed_of_broken h (by simp)) .nil
  | cons b bytes ih =>
    obtain ⟨hnone, hsome⟩ := ih
    have hfresh : ReadsAs (b :: bytes) ((lead b).1 ++ decodeFrom (lead b).2 bytes) := by
      cases hlead : (lead b).2 with
      | some q =>
        have hl := (lead_of_some hlead).1
        rw [hl]
        exact hsome [b] q (by simp [run, step, hl])
      | none =>
        rcases lead_of_none hlead with ⟨hb, hl⟩ | ⟨hb, hl⟩ <;> rw [hl]
        · have hc : String.utf8EncodeChar (Char.ofNat b.toNat) = [b] :=
            utf8EncodeChar_eq_cons_iff.mpr (.inl ⟨hb, rfl, rfl⟩)
          have hchar := ReadsAs.char (Char.ofNat b.toNat) hnone
          rwa [hc] at hchar
        · exact .malformed (malformed_of_lead hlead (by omega) bytes) hnone
    refine ⟨by rwa [decodeFrom_cons], fun p q h => ?_⟩
    rw [decodeFrom_cons]
    by_cases hin : q.low ≤ b ∧ b ≤ q.high
    · by_cases howed : 1 < q.owed
      · -- one byte more of the character begun
        rw [step_more howed hin.1 hin.2]
        have hrest := hsome (p ++ [b]) (q.next b)
          (by simp [run_append, h, run, step_more howed hin.1 hin.2])
        simpa using hrest
      · -- the last byte of the character begun
        have howed' := Nat.le_of_not_lt howed
        rw [step_last howed' hin.1 hin.2]
        have hchar := ReadsAs.char (Char.ofNat (q.next b).value) hnone
        rw [encodeChar_of_run h (.last howed' hin.1 hin.2)] at hchar
        simpa using hchar
    · -- the byte breaks the character off, and is read afresh
      rw [step_broken hin]
      exact .malformed (malformed_of_broken h (by simpa using hin)) hfresh

theorem Malformed.ne_nil {bytes : List UInt8} (h : Malformed p bytes) : p ≠ [] := by
  rintro rfl
  rcases h.begins with hone | ⟨hp, -⟩
  · cases hone
  · exact hp rfl

/-- There is one malformed part at most. -/
theorem Malformed.unique {p' bytes : List UInt8} (h : Malformed p bytes) (h' : Malformed p' bytes) :
    p = p' := by
  have hle : ∀ {p p'}, Malformed p bytes → Malformed p' bytes → p.length ≤ p'.length := by
    intro p p' h h'
    rcases h.begins with hone | ⟨-, hbegins⟩
    · rw [hone]
      exact List.length_pos_iff.mpr h'.ne_nil
    · exact h'.longest p h.isPrefix hbegins
  have hlength := Nat.le_antisymm (hle h h') (hle h' h)
  have hprefix := List.prefix_of_prefix_length_le h.isPrefix h'.isPrefix (Nat.le_of_eq hlength)
  exact hprefix.eq_of_length hlength

/-- **Bytes are read in one way.** -/
theorem ReadsAs.unique {bytes : List UInt8} {text text' : List Char} (h : ReadsAs bytes text)
    (h' : ReadsAs bytes text') : text = text' := by
  induction h generalizing text' with
  | nil =>
    generalize hall : ([] : List UInt8) = all at h'
    cases h' with
    | nil => rfl
    | char c => exact absurd (List.append_eq_nil_iff.mp hall.symm).1 String.utf8EncodeChar_ne_nil
    | malformed hp => exact absurd (List.append_eq_nil_iff.mp hall.symm).1 hp.ne_nil
  | @char c bytes text h ih =>
    generalize hall : String.utf8EncodeChar c ++ bytes = all at h'
    cases h' with
    | nil => exact absurd (List.append_eq_nil_iff.mp hall).1 String.utf8EncodeChar_ne_nil
    | char c' h' =>
      obtain rfl : c = c' := utf8EncodeChar_prefix_unique ⟨bytes, hall⟩ (List.prefix_append _ _)
      obtain rfl := List.append_cancel_left hall
      rw [ih h']
    | malformed hp => exact absurd ⟨bytes, hall⟩ (hp.noChar c)
  | @malformed p bytes text hp h ih =>
    generalize hall : p ++ bytes = all at h' hp
    cases h' with
    | nil => exact absurd (List.append_eq_nil_iff.mp hall).1 hp.ne_nil
    | char c' => exact absurd (List.prefix_append _ _) (hp.noChar c')
    | malformed hp' h' =>
      obtain rfl := hp.unique hp'
      obtain rfl := List.append_cancel_left hall
      rw [ih h']

/-- **Decoding reads bytes in the one way that there is.** -/
theorem readsAs_iff {bytes : List UInt8} {text : List Char} :
    ReadsAs bytes text ↔ text = decode bytes := by
  have hdecode : ReadsAs bytes (decode bytes) := by
    rw [decode_eq_decodeFrom]
    exact (readsAs_decodeFrom bytes).1
  exact ⟨fun h => h.unique hdecode, fun h => h ▸ hdecode⟩

theorem readsAs_decode (bytes : List UInt8) : ReadsAs bytes (decode bytes) :=
  readsAs_iff.mpr rfl

/-- Two of three bytes are one malformed part, and two bytes that begin nothing are two. -/
example : decode [0xE2, 0x82, 0x0D, 0xFF, 0x80] =
    [replacement, '\r', replacement, replacement] := by
  decide

/-- **The bytes of a text.** -/
def encode (text : List Char) : List UInt8 :=
  text.flatMap String.utf8EncodeChar

/-- **Decoding undoes encoding.** -/
theorem decode_encode (text : List Char) : decode (encode text) = text := by
  have hreads : ReadsAs (encode text) text := by
    induction text with
    | nil => exact .nil
    | cons c text ih => exact .char c ih
  exact (readsAs_iff.mp hreads).symm

/-! ## ASCII characters -/

theorem utf8EncodeChar_of_lt (hc : c.toNat < 0x80) :
    String.utf8EncodeChar c = [UInt8.ofNat c.toNat] := by
  have hle : c.val.toNat ≤ 127 := Nat.le_of_lt_succ hc
  rw [String.utf8EncodeChar, if_pos hle]
  rfl

/-- **An ASCII character is read from its own byte.** -/
theorem ReadsAs.mem_of_mem {bytes : List UInt8} {text : List Char} (h : ReadsAs bytes text)
    (hc : c.toNat < 0x80) (hmem : c ∈ text) : UInt8.ofNat c.toNat ∈ bytes := by
  induction h with
  | nil => cases hmem
  | char c' _ ih =>
    rcases List.mem_cons.mp hmem with rfl | hmem
    · exact List.mem_append_left _ (by simp [utf8EncodeChar_of_lt hc])
    · exact List.mem_append_right _ (ih hmem)
  | malformed _ _ ih =>
    rcases List.mem_cons.mp hmem with rfl | hmem
    · exact absurd hc (by decide)
    · exact List.mem_append_right _ (ih hmem)

/-- An ASCII character at the end of a text is read from the last byte. -/
theorem ReadsAs.getLast?_of_getLast? {bytes : List UInt8} {text : List Char}
    (h : ReadsAs bytes text) (hc : c.toNat < 0x80) (hlast : text.getLast? = some c) :
    bytes.getLast? = some (UInt8.ofNat c.toNat) := by
  induction h with
  | nil => cases hlast
  | @char c' bytes text h ih =>
    cases text with
    | nil =>
      obtain rfl : c' = c := Option.some.inj hlast
      cases h
      simp [utf8EncodeChar_of_lt hc]
    | cons d text => rw [List.getLast?_append, ih hlast, Option.some_or]
  | @malformed p bytes text hp h ih =>
    cases text with
    | nil =>
      obtain rfl : replacement = c := Option.some.inj hlast
      exact absurd hc (by decide)
    | cons d text => rw [List.getLast?_append, ih hlast, Option.some_or]

theorem decode_eq_nil_iff {bytes : List UInt8} : decode bytes = [] ↔ bytes = [] := by
  refine ⟨fun h => ?_, fun h => h ▸ rfl⟩
  have hnil := readsAs_decode bytes
  rw [h] at hnil
  cases hnil
  rfl

end StackCalculator.Utf8
