import Mathlib.Data.List.Induction
import StackCalculator.SymbolTable

/-!
# Accesses to the symbol table

The symbol table changes only when a name is read or written. After some accesses it has exactly the
names that were accessed and those it had before, each with the value written to it last, or else
with the one that it had before.

## Main definitions

* `Access`: a name that is read or written
* `SymbolTable.replay`: the symbol table after some accesses
* `lastWritten?`: the value that some accesses write to a name last
* `SymbolTable.Records`: a symbol table that some accesses lead to from nothing

## Main results

* `SymbolTable.mem_replay_iff`: the names of the table are those accessed and those of before
* `SymbolTable.value_replay`: a name has the value written to it last
* `SymbolTable.replay_comm`: accesses to different names may change places
* `SymbolTable.records_replay`: accesses lead from nothing to a table that records them
-/

namespace StackCalculator

/-- **An access to the symbol table.** -/
inductive Access where
  | read (name : String)
  | write (name : String) (x : Float)

namespace Access

/-- The name that is accessed. -/
def name : Access → String
  | read name | write name _ => name

/-- The value that an access writes to a name. -/
def written? (name : String) : Access → Option Float
  | read _ => none
  | write name' x => if name' = name then some x else none

/-- The symbol table after an access. -/
def apply (t : SymbolTable) : Access → SymbolTable
  | read name => t.read name
  | write name x => t.insert name x

end Access

/-- **The value that some accesses write to a name last**, if they do. -/
def lastWritten? (accesses : List Access) (name : String) : Option Float :=
  (accesses.filterMap (Access.written? name)).getLast?

/-- Of two sequences of accesses, the later one comes first. -/
theorem lastWritten?_append (before after : List Access) (name : String) :
    lastWritten? (before ++ after) name =
      (lastWritten? after name).or (lastWritten? before name) := by
  rw [lastWritten?, List.filterMap_append, List.getLast?_append]
  rfl

/-- The last access comes first. -/
theorem lastWritten?_concat (accesses : List Access) (a : Access) (name : String) :
    lastWritten? (accesses ++ [a]) name = (a.written? name).or (lastWritten? accesses name) := by
  have hlast : lastWritten? [a] name = a.written? name := by
    rw [lastWritten?, List.filterMap_cons]
    cases a.written? name <;> rfl
  rw [lastWritten?_append, hlast]

namespace SymbolTable

/-- **The symbol table after some accesses.** -/
def replay (t : SymbolTable) (accesses : List Access) : SymbolTable :=
  accesses.foldl Access.apply t

@[simp]
theorem replay_nil (t : SymbolTable) : t.replay [] = t := rfl

theorem replay_append (t : SymbolTable) (before after : List Access) :
    t.replay (before ++ after) = (t.replay before).replay after :=
  List.foldl_append

theorem replay_concat (t : SymbolTable) (accesses : List Access) (a : Access) :
    t.replay (accesses ++ [a]) = a.apply (t.replay accesses) := by
  rw [replay_append]
  rfl

theorem mem_apply_iff {t : SymbolTable} {a : Access} {name : String} :
    name ∈ a.apply t ↔ a.name = name ∨ name ∈ t := by
  cases a with
  | read name' => simp [Access.apply, Access.name, read]
  | write name' x => simp [Access.apply, Access.name]

theorem value_apply (t : SymbolTable) (a : Access) (name : String) :
    (a.apply t).value name = (a.written? name).getD (t.value name) := by
  cases a with
  | read name' =>
    rw [Access.apply, value, getElem?_read]
    split
    · next h => rw [h]; rfl
    · rfl
  | write name' x =>
    rw [Access.apply, value, Access.written?, Std.ExtTreeMap.getElem?_insert]
    simp only [Std.LawfulEqCmp.compare_eq_iff_eq]
    split <;> rfl

/-- **The names of the table are those accessed and those of before.** -/
theorem mem_replay_iff {t : SymbolTable} {accesses : List Access} {name : String} :
    name ∈ t.replay accesses ↔ (∃ a ∈ accesses, a.name = name) ∨ name ∈ t := by
  induction accesses generalizing t with
  | nil => simp
  | cons a accesses ih =>
    refine (ih (t := a.apply t)).trans ?_
    simp only [mem_apply_iff, List.mem_cons, exists_eq_or_imp]
    rw [or_left_comm, or_assoc]

/-- **A name has the value written to it last**, or else the one of before. -/
theorem value_replay (t : SymbolTable) (accesses : List Access) (name : String) :
    (t.replay accesses).value name = (lastWritten? accesses name).getD (t.value name) := by
  induction accesses using List.reverseRecOn with
  | nil => rfl
  | append_singleton accesses a ih =>
    rw [replay_concat, value_apply, lastWritten?_concat, ih]
    cases a.written? name <;> rfl

/-! ## Entries -/

theorem getElem?_apply_congr {t t' : SymbolTable} {name : String} (h : t[name]? = t'[name]?)
    (a : Access) : (a.apply t)[name]? = (a.apply t')[name]? := by
  cases a with
  | read name' =>
    rw [Access.apply, Access.apply, getElem?_read, getElem?_read]
    split
    · next hname => rw [value, value, hname, h]
    · exact h
  | write name' x =>
    rw [Access.apply, Access.apply, Std.ExtTreeMap.getElem?_insert,
      Std.ExtTreeMap.getElem?_insert, h]

theorem getElem?_apply_of_ne {t : SymbolTable} {a : Access} {name : String} (h : a.name ≠ name) :
    (a.apply t)[name]? = t[name]? := by
  cases a with
  | read name' =>
    rw [Access.apply, getElem?_read]
    exact if_neg h
  | write name' x =>
    rw [Access.apply, Std.ExtTreeMap.getElem?_insert, if_neg]
    rwa [Std.LawfulEqCmp.compare_eq_iff_eq]

/-- **Tables that agree on a name still do after the same accesses.** -/
theorem getElem?_replay_congr {t t' : SymbolTable} {name : String} (h : t[name]? = t'[name]?)
    (accesses : List Access) : (t.replay accesses)[name]? = (t'.replay accesses)[name]? := by
  induction accesses generalizing t t' with
  | nil => exact h
  | cons a accesses ih => exact ih (getElem?_apply_congr h a)

/-- **What is not accessed is left alone.** -/
theorem getElem?_replay_of_ne (t : SymbolTable) {accesses : List Access} {name : String}
    (h : ∀ a ∈ accesses, a.name ≠ name) : (t.replay accesses)[name]? = t[name]? := by
  induction accesses generalizing t with
  | nil => rfl
  | cons a accesses ih =>
    obtain ⟨ha, hmore⟩ := List.forall_mem_cons.mp h
    exact (ih (a.apply t) hmore).trans (getElem?_apply_of_ne ha)

/-- **Accesses to different names may change places.** -/
theorem replay_comm (t : SymbolTable) {before after : List Access}
    (h : ∀ a ∈ before, ∀ b ∈ after, a.name ≠ b.name) :
    (t.replay before).replay after = (t.replay after).replay before := by
  apply Std.ExtTreeMap.ext_getElem?
  intro name
  by_cases hname : ∃ a ∈ before, a.name = name
  · -- the name is accessed on one side only, and the other side leaves it alone
    obtain ⟨a, ha, rfl⟩ := hname
    have hafter : ∀ b ∈ after, b.name ≠ a.name := fun b hb => (h a ha b hb).symm
    rw [getElem?_replay_of_ne _ hafter]
    exact getElem?_replay_congr (getElem?_replay_of_ne _ hafter).symm before
  · have hbefore : ∀ a ∈ before, a.name ≠ name := fun a ha he => hname ⟨a, ha, he⟩
    rw [getElem?_replay_of_ne (t.replay after) hbefore]
    exact getElem?_replay_congr (getElem?_replay_of_ne _ hbefore) after

/-- **A symbol table that some accesses lead to from nothing**: it has the names that were accessed,
each with the value written to it last, or with zero if it was only read. -/
structure Records (t : SymbolTable) (accesses : List Access) : Prop where
  mem_iff : ∀ name, name ∈ t ↔ ∃ a ∈ accesses, a.name = name
  value_eq : ∀ name, t.value name = (lastWritten? accesses name).getD 0

theorem records_replay (accesses : List Access) : Records (replay ∅ accesses) accesses where
  mem_iff name := by
    rw [mem_replay_iff, or_iff_left Std.ExtTreeMap.not_mem_empty]
  value_eq name := by
    rw [value_replay, value, Std.ExtTreeMap.getElem?_empty]
    rfl

/-- More accesses forget no name. -/
theorem Records.mem_of_append {t t' : SymbolTable} {before after : List Access} {name : String}
    (h : Records t before) (h' : Records t' (before ++ after)) (hname : name ∈ t) : name ∈ t' := by
  obtain ⟨a, ha, rfl⟩ := (h.mem_iff name).mp hname
  exact (h'.mem_iff _).mpr ⟨a, List.mem_append_left _ ha, rfl⟩

end SymbolTable

end StackCalculator
