import Mathlib.Data.List.DropRight
import StackCalculator.Proofs.Malformed
import StackCalculator.Stream.Input

/-!
# The lines of an input

An input delivers its lines one after the other, and then meets what stands behind them. The lines
of two inputs put together are those of the first and then those of the second, unless the first
leaves a line unfinished. No line contains a line feed, since decoding makes none out of other
bytes.

## Main definitions

* `Input.lines`: the lines that an input delivers
* `Input.Complete bytes`: no line is left unfinished

## Main results

* `Utf8.lineFeed_notMem_decode`: decoding makes no line feed
* `Input.lines_append`: the lines of two inputs put together
-/

namespace StackCalculator

namespace Utf8

/-- **Decoding makes no line feed** out of bytes that are none. -/
theorem lineFeed_notMem_decode {bytes : List UInt8} (h : 10 ∉ bytes) : '\n' ∉ decode bytes :=
  fun hmem => h ((readsAs_decode bytes).mem_of_mem (by decide) hmem)

/-- **Encoding makes no byte of a line feed** out of other characters. -/
theorem lineFeed_notMem_encode {text : List Char} (h : '\n' ∉ text) : 10 ∉ encode text := by
  intro hmem
  obtain ⟨line, rest, hbytes, -⟩ := List.eq_append_cons_of_mem hmem
  have htext := decode_encode text
  rw [hbytes] at htext
  have hdecode : decode (line ++ 10 :: rest) = decode line ++ '\n' :: decode rest :=
    decode_ascii (by decide) line rest
  rw [hdecode] at htext
  exact h (by simp [← htext])

end Utf8

namespace Input

/-! ## Reading a line -/

/-- What a read delivers: a line, the end, or the failure. -/
theorem fetch_cases (i : Input) :
    (∃ text bytes, i.fetch = (.line text, { i with bytes })) ∨
      (i.bytes = [] ∧ i.failure? = none ∧ i.fetch = (.exhausted, i)) ∨
      ∃ reason, i.failure? = some reason ∧ i.fetch = (.failed reason, { i with bytes := [] }) := by
  obtain ⟨bytes, failure?⟩ := i
  simp only [fetch]
  cases afterLine? bytes with
  | some rest => exact .inl ⟨_, rest, rfl⟩
  | none =>
    cases failure? with
    | some reason => exact .inr (.inr ⟨reason, rfl, rfl⟩)
    | none =>
      by_cases hb : bytes = []
      · exact .inr (.inl ⟨hb, rfl, if_pos hb⟩)
      · exact .inl ⟨_, [], if_neg hb⟩

/-- A line that ends in a line feed is read up to it. -/
theorem fetch_append_lineFeed {line : List UInt8} (h : lineFeed ∉ line) (rest : List UInt8)
    (failure? : Option String) :
    fetch ⟨line ++ lineFeed :: rest, failure?⟩ =
      (.line (Utf8.decode (dropReturn line)), ⟨rest, failure?⟩) := by
  have hline : ∀ b ∈ line, (b != lineFeed) = true := by
    intro b hb
    exact bne_iff_ne.mpr fun he => h (he ▸ hb)
  have hfirst : firstLine (line ++ lineFeed :: rest) = line := by
    rw [firstLine, List.takeWhile_append_of_pos hline, List.takeWhile_cons_of_neg (by simp),
      List.append_nil]
  have hafter : afterLine? (line ++ lineFeed :: rest) = some rest := by
    rw [afterLine?, List.dropWhile_append_of_pos hline, List.dropWhile_cons_of_neg (by simp)]
    rfl
  simp only [fetch, hafter, hfirst]

/-- A line that the input ends before is read as far as it goes, unless a failure hides it. -/
theorem fetch_of_lineFeed_notMem {bytes : List UInt8} (h : lineFeed ∉ bytes)
    (failure? : Option String) :
    fetch ⟨bytes, failure?⟩ =
      match failure? with
      | some reason => (.failed reason, ⟨[], some reason⟩)
      | none =>
        if bytes = [] then (.exhausted, ⟨[], none⟩)
        else (.line (Utf8.decode bytes), ⟨[], none⟩) := by
  have hall : ∀ b ∈ bytes, (b != lineFeed) = true :=
    fun b hb => bne_iff_ne.mpr fun he => h (he ▸ hb)
  have hafter : afterLine? bytes = none := by
    rw [afterLine?, List.dropWhile_eq_nil_iff.mpr hall]
    rfl
  simp only [fetch, hafter]
  cases failure? with
  | some reason => rfl
  | none =>
    dsimp only
    split
    · next hb => rw [hb]
    · rfl

/-- **No line contains a line feed.** -/
theorem lineFeed_notMem_fetch {i i' : Input} {text : List Char} (h : i.fetch = (.line text, i')) :
    '\n' ∉ text := by
  obtain ⟨bytes, failure?⟩ := i
  by_cases hmem : lineFeed ∈ bytes
  · obtain ⟨line, rest, rfl, hline⟩ := List.eq_append_cons_of_mem hmem
    rw [fetch_append_lineFeed hline] at h
    cases h
    refine Utf8.lineFeed_notMem_decode fun hb => hline ?_
    rw [dropReturn] at hb
    split at hb
    · exact (List.dropLast_sublist line).subset hb
    · exact hb
  · rw [fetch_of_lineFeed_notMem hmem] at h
    cases failure? with
    | some reason => cases h
    | none =>
      dsimp only at h
      split at h
      · cases h
      · cases h
        exact Utf8.lineFeed_notMem_decode hmem

/-! ## All lines -/

/-- **The lines that an input delivers**, until it is exhausted or fails. -/
def lines (i : Input) : List (List Char) :=
  match _ : i.fetch with
  | (.line text, i') => text :: i'.lines
  | (.exhausted, _) | (.failed _, _) => []
termination_by i.bytes.length
decreasing_by
  have hf : i.fetch = (.line text, i') := ‹_›
  have := @length_fetch_lt i text (by rw [hf])
  rwa [hf] at this

theorem lines_of_line {i i' : Input} {text : List Char} (h : i.fetch = (.line text, i')) :
    i.lines = text :: i'.lines := by
  rw [lines]
  split
  · next heq => cases h.symm.trans heq; rfl
  · next heq => cases h.symm.trans heq
  · next heq => cases h.symm.trans heq

theorem lines_nil (failure? : Option String) : lines ⟨[], failure?⟩ = [] := by
  cases failure? <;> simp [lines, fetch, afterLine?]

/-- What no line feed ends is one line, if there is anything and no failure hides it. -/
theorem lines_of_lineFeed_notMem {bytes : List UInt8} (h : lineFeed ∉ bytes)
    (failure? : Option String) :
    lines ⟨bytes, failure?⟩ = if failure? = none ∧ bytes ≠ [] then [Utf8.decode bytes] else [] := by
  by_cases hnone : failure? = none ∧ bytes ≠ []
  · obtain ⟨rfl, hbytes⟩ := hnone
    have hfetch : fetch ⟨bytes, none⟩ = (.line (Utf8.decode bytes), ⟨[], none⟩) := by
      rw [fetch_of_lineFeed_notMem h]
      exact if_neg hbytes
    rw [if_pos ⟨rfl, hbytes⟩, lines_of_line hfetch, lines_nil]
  · rw [if_neg hnone]
    cases failure? with
    | some reason => rw [lines, fetch_of_lineFeed_notMem h]
    | none =>
      obtain rfl : bytes = [] := by simpa using hnone
      exact lines_nil none

/-- The first of the lines of an input is the one that is read first. -/
theorem fetch_of_lines_eq_cons {i : Input} {text : List Char} {more : List (List Char)}
    (h : i.lines = text :: more) :
    ∃ i', i.fetch = (.line text, i') ∧ i'.failure? = i.failure? ∧ i'.lines = more := by
  rcases i.fetch_cases with ⟨text', bytes, hf⟩ | ⟨hb, hnone, -⟩ | ⟨reason, hreason, hf⟩
  · rw [lines_of_line hf] at h
    obtain ⟨rfl, rfl⟩ := List.cons.inj h
    exact ⟨_, hf, rfl, rfl⟩
  · obtain ⟨bytes, failure?⟩ := i
    obtain rfl : bytes = [] := hb
    rw [lines_nil] at h
    cases h
  · rw [lines] at h
    split at h
    · next heq => cases heq.symm.trans hf
    · cases h
    · cases h

/-- Where there are no more lines, the input is exhausted or fails. -/
theorem fetch_of_lines_eq_nil {i : Input} (h : i.lines = []) :
    i.failure? = none ∧ i.fetch = (.exhausted, i) ∨
      ∃ reason, i.failure? = some reason ∧ i.fetch = (.failed reason, { i with bytes := [] }) := by
  rcases i.fetch_cases with ⟨text, bytes, hf⟩ | ⟨-, hnone, hf⟩ | hfailed
  · rw [lines_of_line hf] at h
    cases h
  · exact .inl ⟨hnone, hf⟩
  · exact .inr hfailed

/-- **No line is left unfinished.** -/
def Complete (bytes : List UInt8) : Prop :=
  bytes = [] ∨ bytes.getLast? = some lineFeed

theorem Complete.of_append {line rest : List UInt8} (h : Complete (line ++ lineFeed :: rest)) :
    Complete rest := by
  rcases List.eq_nil_or_concat rest with rfl | ⟨more, b, rfl⟩
  · exact .inl rfl
  · rcases h with h | h
    · simp at h
    · rw [List.concat_eq_append, ← List.cons_append, ← List.append_assoc, List.getLast?_concat] at h
      exact .inr (by rw [List.concat_eq_append, List.getLast?_concat, h])

/-- **The lines of two inputs put together**, of which the first leaves no line unfinished. -/
theorem lines_append {a : List UInt8} (h : Complete a) (b : List UInt8) (failure? : Option String) :
    lines ⟨a ++ b, failure?⟩ = lines ⟨a, none⟩ ++ lines ⟨b, failure?⟩ := by
  induction hn : a.length using Nat.strong_induction_on generalizing a with
  | _ n ih =>
    rcases h with rfl | hlast
    · rw [lines_nil]
      rfl
    · -- the first line ends in a line feed, whatever follows the first input
      obtain ⟨line, rest, rfl, hline⟩ := List.eq_append_cons_of_mem (List.mem_of_getLast? hlast)
      have hlt : rest.length < n := by
        rw [← hn, List.length_append, List.length_cons]
        omega
      have happend : line ++ lineFeed :: rest ++ b = line ++ lineFeed :: (rest ++ b) := by simp
      rw [happend, lines_of_line (fetch_append_lineFeed hline _ _),
        lines_of_line (fetch_append_lineFeed hline _ _),
        ih rest.length hlt (Complete.of_append (.inr hlast)) rfl]
      rfl

end Input

end StackCalculator
