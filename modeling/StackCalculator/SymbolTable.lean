import Std.Data.ExtTreeMap

/-!
# The symbol table

The values of the names used so far. A name that is read before it has a value is given zero.

## Main definitions

* `SymbolTable`: values by name, in the order of the names' characters
* `SymbolTable.read`: the value of a name, which is in the table from then on

## Main results

* `SymbolTable.getElem?_read`: reading changes at most the entry that is read
-/

namespace StackCalculator

/-- **The values of the names used so far.** -/
abbrev SymbolTable := Std.ExtTreeMap String Float

namespace SymbolTable

/-- The value of a name, zero if it has none. -/
def value (t : SymbolTable) (name : String) : Float :=
  t[name]?.getD 0

/-- **Reading a name**: it is in the table from then on. -/
def read (t : SymbolTable) (name : String) : SymbolTable :=
  t.insertIfNew name 0

/-- **Reading changes at most the entry that is read.** -/
theorem getElem?_read (t : SymbolTable) (a b : String) :
    (t.read a)[b]? = if a = b then some (t.value a) else t[b]? := by
  simp only [read, value, Std.ExtTreeMap.getElem?_insertIfNew]
  grind

end SymbolTable

end StackCalculator
