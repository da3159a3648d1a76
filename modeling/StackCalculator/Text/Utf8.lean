/-!
# Reading UTF-8

Bytes are decoded one at a time. Between characters the decoder waits for a first byte; after one it
knows how many bytes are still owed and which values the next may take. Wherever the bytes read so
far can no longer start a character, one replacement character stands for them, and the byte that
broke them off is looked at afresh: so each longest prefix of a character that is not continued
becomes one replacement character, and so does each byte that starts nothing.

## Main definitions

* `Utf8.Partial`: a character of which some bytes are read
* `Utf8.step`: one byte, with the characters it completes
* `Utf8.decode`: a whole text

## Main results

* `Utf8.decodeFrom_append`: decoding two parts is decoding the first, then the second
* `Utf8.decode_ascii`: an ASCII byte ends any unfinished character, so decoding never crosses it
-/

namespace StackCalculator.Utf8

/-- The character that stands for bytes that are no UTF-8. -/
def replacement : Char := '\ufffd'

/-- **A character begun**: its value so far, the bytes still owed, and the least and greatest value
of the next byte. -/
structure Partial where
  value : Nat
  owed : Nat
  low : UInt8
  high : UInt8
deriving DecidableEq, Repr

/-- The first byte of a character: what it completes, and what it begins. The bounds on the second
byte keep out values written longer than needed, surrogates, and values past the last plane. -/
def lead (b : UInt8) : List Char × Option Partial :=
  if b < 0x80 then ([Char.ofNat b.toNat], none)
  else if b < 0xC2 then ([replacement], none)
  else if b < 0xE0 then ([], some ⟨b.toNat - 0xC0, 1, 0x80, 0xBF⟩)
  else if b < 0xF0 then
    ([], some ⟨b.toNat - 0xE0, 2, if b = 0xE0 then 0xA0 else 0x80, if b = 0xED then 0x9F else 0xBF⟩)
  else if b < 0xF5 then
    ([], some ⟨b.toNat - 0xF0, 3, if b = 0xF0 then 0x90 else 0x80, if b = 0xF4 then 0x8F else 0xBF⟩)
  else ([replacement], none)

/-- **One byte**: the characters it completes, and the character left unfinished after it. -/
def step : Option Partial → UInt8 → List Char × Option Partial
  | none, b => lead b
  | some p, b =>
    if p.low ≤ b ∧ b ≤ p.high then
      let value := p.value * 64 + (b.toNat - 0x80)
      if p.owed ≤ 1 then ([Char.ofNat value], none)
      else ([], some ⟨value, p.owed - 1, 0x80, 0xBF⟩)
    else
      let (cs, q) := lead b
      (replacement :: cs, q)

/-- The character an unfinished one counts as where the text ends. -/
def finish : Option Partial → List Char
  | none => []
  | some _ => [replacement]

/-- One byte more for a decoder that keeps the characters read so far. -/
def push (s : Array Char × Option Partial) (b : UInt8) : Array Char × Option Partial :=
  (s.1 ++ (step s.2 b).1, (step s.2 b).2)

/-- **The characters of a text**, with a replacement character for whatever is no UTF-8. -/
def decode (bytes : List UInt8) : List Char :=
  let s := bytes.foldl push (#[], none)
  s.1.toList ++ finish s.2

/-- The characters completed by some bytes, and the one left unfinished. -/
def run : Option Partial → List UInt8 → List Char × Option Partial
  | p, [] => ([], p)
  | p, b :: bs => ((step p b).1 ++ (run (step p b).2 bs).1, (run (step p b).2 bs).2)

/-- The characters of the bytes that follow an unfinished character, or none. -/
def decodeFrom (p : Option Partial) (bs : List UInt8) : List Char :=
  (run p bs).1 ++ finish (run p bs).2

theorem foldl_push (s : Array Char × Option Partial) (bs : List UInt8) :
    (bs.foldl push s).1.toList = s.1.toList ++ (run s.2 bs).1 ∧
      (bs.foldl push s).2 = (run s.2 bs).2 := by
  induction bs generalizing s with
  | nil => simp [run]
  | cons b bs ih => simp [push, run, ih]

theorem decode_eq_decodeFrom (bs : List UInt8) : decode bs = decodeFrom none bs := by
  simp [decode, decodeFrom, foldl_push]

theorem run_append (p : Option Partial) (bs cs : List UInt8) :
    run p (bs ++ cs) = ((run p bs).1 ++ (run (run p bs).2 cs).1, (run (run p bs).2 cs).2) := by
  induction bs generalizing p with
  | nil => simp [run]
  | cons b bs ih => simp [run, ih]

theorem decodeFrom_append (p : Option Partial) (bs cs : List UInt8) :
    decodeFrom p (bs ++ cs) = (run p bs).1 ++ decodeFrom (run p bs).2 cs := by
  simp [decodeFrom, run_append]

theorem decodeFrom_cons (p : Option Partial) (b : UInt8) (bs : List UInt8) :
    decodeFrom p (b :: bs) = (step p b).1 ++ decodeFrom (step p b).2 bs := by
  simp [decodeFrom, run]

/-- An ASCII byte leaves nothing unfinished. -/
theorem step_ascii {b : UInt8} (h : b < 0x80) (p : Option Partial) (hp : ∀ q ∈ p, 0x80 ≤ q.low) :
    step p b = (finish p ++ [Char.ofNat b.toNat], none) := by
  cases p with
  | none => simp [step, lead, h, finish]
  | some q =>
    have hq : ¬ (q.low ≤ b ∧ b ≤ q.high) := fun hb =>
      absurd (UInt8.lt_of_lt_of_le h (UInt8.le_trans (hp q rfl) hb.1)) (UInt8.lt_irrefl b)
    simp [step, hq, lead, h, finish]

theorem low_of_lead {b : UInt8} : ∀ q ∈ (lead b).2, 0x80 ≤ q.low := by
  intro q hq
  unfold lead at hq
  grind

/-- Every unfinished character asks for a byte past ASCII. -/
theorem low_of_step {p : Option Partial} {b : UInt8} : ∀ q ∈ (step p b).2, 0x80 ≤ q.low := by
  intro q hq
  cases p with
  | none => exact low_of_lead q hq
  | some p =>
    simp only [step] at hq
    split at hq
    · split at hq
      · simp at hq
      · simp only [Option.mem_def, Option.some.injEq] at hq
        subst hq
        exact UInt8.le_refl _
    · exact low_of_lead q hq

theorem low_of_run {p : Option Partial} (hp : ∀ q ∈ p, 0x80 ≤ q.low) (bs : List UInt8) :
    ∀ q ∈ (run p bs).2, 0x80 ≤ q.low := by
  induction bs generalizing p with
  | nil => exact hp
  | cons b bs ih => exact ih low_of_step

/-- **Decoding never crosses an ASCII byte**: the text before it and the text after it are decoded
as if each stood alone. -/
theorem decode_ascii {b : UInt8} (h : b < 0x80) (bs cs : List UInt8) :
    decode (bs ++ b :: cs) = decode bs ++ Char.ofNat b.toNat :: decode cs := by
  have hs := step_ascii h _ (low_of_run (p := none) (by simp) bs)
  simp only [decode_eq_decodeFrom, decodeFrom_append, decodeFrom_cons, hs]
  simp only [decodeFrom, List.append_assoc, List.cons_append, List.nil_append]

end StackCalculator.Utf8
