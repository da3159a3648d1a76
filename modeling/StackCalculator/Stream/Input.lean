import StackCalculator.Text.Utf8

/-!
# Input

An input is the bytes still to come and what stands behind them: the end, or a failure that every
read from then on meets. It is read line by line. A line ends at a line feed, which is dropped
together with one carriage return right before it, and is then decoded; the last line needs no line
feed unless it is empty.

## Main definitions

* `Input`: the bytes to come and what stands behind them
* `Fetched`: what a read delivers
* `Input.fetch`: reading one line

## Main results

* `Input.length_fetch_lt`: a read that delivers a line takes at least one byte
-/

namespace StackCalculator

/-- **An input**: the bytes to come, and the failure behind them, if any. -/
structure Input where
  bytes : List UInt8
  failure? : Option String
deriving DecidableEq, Repr

/-- **What a read delivers**: a line, the end, or a failure. -/
inductive Fetched where
  | line (text : List Char)
  | exhausted
  | failed (reason : String)
deriving DecidableEq, Repr

namespace Input

/-- The byte that ends a line. -/
def lineFeed : UInt8 := 10

/-- The bytes before the first line feed, all of them if there is none. -/
def firstLine (bytes : List UInt8) : List UInt8 :=
  bytes.takeWhile (· != lineFeed)

/-- The bytes behind the first line feed, if there is one. -/
def afterLine? (bytes : List UInt8) : Option (List UInt8) :=
  (bytes.dropWhile (· != lineFeed)).tail?

/-- A line without the carriage return at its end. -/
def dropReturn (line : List UInt8) : List UInt8 :=
  if line.getLast? = some 13 then line.dropLast else line

/-- **Reading one line.** A failure hides the bytes before it that no line feed ends, and they are
lost. -/
def fetch (i : Input) : Fetched × Input :=
  match afterLine? i.bytes, i.failure? with
  | some rest, _ => (.line (Utf8.decode (dropReturn (firstLine i.bytes))), { i with bytes := rest })
  | none, some reason => (.failed reason, { i with bytes := [] })
  | none, none =>
    if i.bytes = [] then (.exhausted, i)
    else (.line (Utf8.decode i.bytes), { i with bytes := [] })

theorem length_of_afterLine? {bs rest : List UInt8} (h : afterLine? bs = some rest) :
    rest.length < bs.length := by
  have hle := (List.dropWhile_sublist (· != lineFeed) (l := bs)).length_le
  rw [afterLine?] at h
  generalize bs.dropWhile (· != lineFeed) = tail at h hle
  cases tail with
  | nil => cases h
  | cons b tail =>
    obtain rfl : tail = rest := Option.some.inj h
    exact Nat.lt_of_lt_of_le (Nat.lt_succ_self _) hle

/-- **A read that delivers a line takes at least one byte.** -/
theorem length_fetch_lt {i : Input} {text : List Char} (h : i.fetch.1 = .line text) :
    i.fetch.2.bytes.length < i.bytes.length := by
  revert h
  simp only [fetch]
  split
  · next hs => exact fun _ => length_of_afterLine? hs
  · simp
  · split
    · simp
    · next hb => exact fun _ => List.length_pos_iff.mpr hb

end Input

end StackCalculator
