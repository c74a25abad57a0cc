import SignatureAutomata.Json.Value
import SignatureAutomata.Json.Written
import SignatureAutomata.Matcher

/-! # Matchers as JSON

A matcher is an object of its four fields.  It is read from the fields in any order,
fields of other names being passed over, or from an array of the four in order.
Reading does not ask whether the matcher has a fault.
-/

namespace SignatureAutomata
namespace Matcher

/-- The name of the record, as messages give it. -/
def recordName : String := "GeneratedMatcher"

/-- **A field of a matcher.** -/
inductive Field where
  | symbols
  | table
  | start
  | accepting
  deriving DecidableEq

namespace Field

/-- All fields, in the order of an array. -/
def all : List Field := [.symbols, .table, .start, .accepting]

/-- The name of a field. -/
def name : Field → String
  | .symbols => "symbols"
  | .table => "table"
  | .start => "start"
  | .accepting => "accepting"

/-- The field with a given name. -/
def ofName? (name : String) : Option Field := all.find? (·.name == name)

@[simp] theorem ofName?_name (f : Field) : ofName? f.name = some f := by
  cases f <;> rfl

end Field

/-! ### The value of each field -/

/-- Reads a number of a state. -/
def readState : Json.Reader Nat := Json.natural .uint32

/-- Reads the symbols. -/
def readSymbols (τ : SymbolType) : Json.Reader (List τ.Symbol) := Json.array (Json.symbol τ)

/-- Reads the table. -/
def readTable : Json.Reader (List (List Nat)) := Json.array (Json.array readState)

/-- Reads the accepting states. -/
def readAccepting : Json.Reader (List Nat) := Json.array readState

/-! ### Reading the members of an object -/

/-- **The fields of a matcher read so far.** -/
structure Fields (α : Type) where
  symbols : Option (List α) := none
  table : Option (List (List Nat)) := none
  start : Option Nat := none
  accepting : Option (List Nat) := none

namespace Fields

/-- Reads the value of a field that must not be there yet. -/
def once {β σ : Type} (field : Field) (present : Option β) (reader : Json.Reader β)
    (store : β → σ) : Except Json.Failure (Json.Reader σ) :=
  match present with
  | some _ => .error (.data (.duplicateField field.name))
  | none => .ok (reader.map store)

/-- The value of a field that has to be there. -/
def require {β : Type} (field : Field) : Option β → Except Json.Failure β
  | some x => .ok x
  | none => .error (.data (.missingField field.name))

/-- Reads the value of a field. -/
def read (τ : SymbolType) (f : Fields τ.Symbol) :
    Field → Except Json.Failure (Json.Reader (Fields τ.Symbol))
  | .symbols => once .symbols f.symbols (readSymbols τ) fun x => { f with symbols := some x }
  | .table => once .table f.table readTable fun x => { f with table := some x }
  | .start => once .start f.start readState fun x => { f with start := some x }
  | .accepting => once .accepting f.accepting readAccepting fun x => { f with accepting := some x }

/-- Reads the value that belongs to a key. -/
def readMember (τ : SymbolType) (key : List Char) (f : Fields τ.Symbol) :
    Except Json.Failure (Json.Reader (Fields τ.Symbol)) :=
  match Field.ofName? (String.ofList key) with
  | some field => f.read τ field
  | none => .ok (Json.skipValue.map fun _ => f)

/-- The matcher of the fields: the first one missing is the failure. -/
def toMatcher {α : Type} (f : Fields α) : Except Json.Failure (Matcher α) := do
  let symbols ← require .symbols f.symbols
  let table ← require .table f.table
  let start ← require .start f.start
  let accepting ← require .accepting f.accepting
  .ok { symbols, table, start, accepting }

end Fields

/-- Reads a matcher from the members of an object. -/
def readMembers (τ : SymbolType) : Json.Reader (Matcher τ.Symbol) := fun s => do
  let (fields, rest) ← Json.members Json.key (Fields.readMember τ) {} s
  .ok (← fields.toMatcher, rest)

/-! ### Reading the elements of an array -/

/-- Reads an element that has to be there, being the field with a given index. -/
def readElement {β : Type} (index : Nat) (reader : Json.Reader β) : Json.Reader β := fun s => do
  match ← Json.next ']' (index == 0) s with
  | .closing _ => .error (.data (.tooShort index recordName Field.all.length))
  | .item s => reader s

/-- Reads a matcher from the elements of an array. -/
def readElements (τ : SymbolType) : Json.Reader (Matcher τ.Symbol) := fun s => do
  let (symbols, s) ← readElement 0 (readSymbols τ) s
  let (table, s) ← readElement 1 readTable s
  let (start, s) ← readElement 2 readState s
  let (accepting, s) ← readElement 3 readAccepting s
  .ok ({ symbols, table, start, accepting }, ← Json.skipClosing ']' s)

/-- **Reads a matcher**, whatever its table. -/
def read (τ : SymbolType) : Json.Reader (Matcher τ.Symbol) :=
  Json.record recordName (readElements τ) (readMembers τ)

/-! ### Writing -/

/-- **A matcher as JSON.** -/
def json (τ : SymbolType) (m : Matcher τ.Symbol) : List Char :=
  Json.objectText
    [Json.memberText Field.symbols.name (Json.arrayText (m.symbols.map (Json.symbolText τ))),
      Json.memberText Field.table.name (Json.arrayText (m.table.map Json.naturalsText)),
      Json.memberText Field.start.name (Decimal.digits m.start),
      Json.memberText Field.accepting.name (Json.naturalsText m.accepting)]

end Matcher
end SignatureAutomata
