import SignatureAutomata.StateSet

/-! # Named state sets

A `Family` holds state sets under names and is changed by commands.  A name not
used yet stands for the empty set.  Reserving room for members is a command of
its own and changes what is stored, never what is seen: a set is what its members
are.
-/

namespace SignatureAutomata

/-- **State sets by name**, in the order in which the names were first used. -/
structure Family where
  sets : List (String × StateSet)

namespace Family

/-- The family in which no name has been used. -/
def empty : Family := ⟨[]⟩

/-- The set under a name: the empty one if the name is unused. -/
def get (f : Family) (name : String) : StateSet := (f.sets.lookup name).getD ∅

/-- Stores a set under a name. -/
def put (f : Family) (name : String) (S : StateSet) : Family :=
  if f.sets.any (·.1 == name) then
    ⟨f.sets.map fun e => if e.1 == name then (name, S) else e⟩
  else ⟨f.sets ++ [(name, S)]⟩

/-- Uses a name, for the set that it already stands for. -/
def touch (f : Family) (name : String) : Family := f.put name (f.get name)

/-- How many different sets are stored. -/
def distinct (f : Family) : Nat := (f.sets.map (·.2)).eraseDups.length

/-- **What can be done to a named set.** -/
inductive Command where
  /-- An empty set with room for `capacity` states. -/
  | reserve (capacity : Nat)
  /-- One state, with room for `capacity`. -/
  | single (state capacity : Nat)
  /-- Exactly the states of a list. -/
  | ofList (states : List Nat)
  /-- One more state. -/
  | insert (state : Nat)
  /-- The states of a list as well. -/
  | extend (states : List Nat)
  /-- The states of another set as well. -/
  | union (other : String)
  /-- A copy of another set. -/
  | copy (other : String)

/-- The set that a command leaves under `name`. -/
def result (f : Family) (name : String) : Command → StateSet
  | .reserve _ => ∅
  | .single s _ => .singleton s
  | .ofList l => .ofList l
  | .insert s => (f.get name).insert s
  | .extend l => (f.get name).insertAll l
  | .union other => (f.get name).union (f.get other)
  | .copy other => f.get other

/-- Carries out a command on the set under `name`. -/
def apply (f : Family) (name : String) (c : Command) : Family := f.put name (f.result name c)

end Family
end SignatureAutomata
