/-!
# Output

An output holds the bytes written so far and may have room for a limited number more. What fits of a
text is written; if not all of it fits, the write fails.

## Main definitions

* `Output`: the bytes written, and the room left
* `Output.write`: writing a text

## Main results

* `Output.write_of_unlimited`: without a limit every write succeeds and appends its text
-/

namespace StackCalculator

/-- **An output**: the bytes written so far, and the room left if it is limited. -/
structure Output where
  written : ByteArray
  room? : Option Nat

namespace Output

/-- Nothing written. -/
def empty (room? : Option Nat) : Output :=
  ⟨ByteArray.empty, room?⟩

/-- What a write that does not fit is told. -/
def overflowReason : String :=
  "failed to write whole buffer"

/-- **Writing a text.** The text that does not fit is cut at the limit, and the write fails. -/
def write (text : String) (o : Output) : Except String Unit × Output :=
  let bytes := text.toUTF8
  match o.room? with
  | none => (.ok (), { o with written := o.written ++ bytes })
  | some room =>
    if bytes.size ≤ room then (.ok (), ⟨o.written ++ bytes, some (room - bytes.size)⟩)
    else (.error overflowReason, ⟨o.written ++ bytes.extract 0 room, some 0⟩)

/-- The bytes written after the first `n`. -/
def since (n : Nat) (o : Output) : ByteArray :=
  o.written.extract n o.written.size

theorem write_of_unlimited {o : Output} (h : o.room? = none) (text : String) :
    o.write text = (.ok (), { o with written := o.written ++ text.toUTF8 }) := by
  simp [write, h]

end Output

end StackCalculator
