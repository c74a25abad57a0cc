import SignatureAutomata.Json.Value
import SignatureAutomata.Json.Written
import SignatureAutomata.Matlab.Options

/-! # Options as JSON

Options are an object of their fields.  They are read from an object of any of the
fields in any order, or from an array that may end after any of them; a field that is
not given keeps its default.
-/

namespace SignatureAutomata
namespace Matlab
namespace Options

/-- The name of the record, as messages give it. -/
def recordName : String := "EmitConfig"

/-- **A field of the options.** -/
inductive Field where
  | functionName
  | classifierName
  | indent
  deriving DecidableEq

namespace Field

/-- All fields, in the order of an array. -/
def all : List Field := [.functionName, .classifierName, .indent]

/-- The name of a field. -/
def name : Field → String
  | .functionName => "function_name"
  | .classifierName => "classifier_name"
  | .indent => "indent"

/-- The field with a given name. -/
def ofName? (name : String) : Option Field := all.find? (·.name == name)

@[simp] theorem ofName?_name (f : Field) : ofName? f.name = some f := by
  cases f <;> rfl

/-- Reads a name. -/
def readName : Json.Reader String := (Json.string .string).map String.ofList

/-- Reads the value of a field into some options. -/
def read (o : Options) : Field → Json.Reader Options
  | .functionName => readName.map fun x => { o with functionName := x }
  | .classifierName => readName.map fun x => { o with classifierName := x }
  | .indent => (Json.natural .size).map fun x => { o with indent := x }

end Field

/-! ### Reading -/

/-- Reads the value that belongs to a key, given the fields read so far and the
options that they make. -/
def readMember (key : List Char) (state : List Field × Options) :
    Except Json.Failure (Json.Reader (List Field × Options)) :=
  let (given, o) := state
  match Field.ofName? (String.ofList key) with
  | none => .error (.data (.unknownField (String.ofList key) (Field.all.map Field.name)))
  | some f =>
      if f ∈ given then .error (.data (.duplicateField f.name))
      else .ok ((f.read o).map fun o => (f :: given, o))

/-- Reads options from the members of an object. -/
def readMembers : Json.Reader Options :=
  (Json.members Json.key readMember ([], {})).map (·.2)

/-- Reads the elements of an array into the given fields, up to the end of either. -/
def readElements (first : Bool) (o : Options) : List Field → Json.Reader Options
  | [], s => do .ok (o, ← Json.skipClosing ']' s)
  | f :: fs, s => do
      match ← Json.next ']' first s with
      | .closing rest => .ok (o, rest)
      | .item s =>
          let (o, rest) ← f.read o s
          readElements false o fs rest

/-- **Reads options**, whatever their names. -/
def read : Json.Reader Options :=
  Json.record recordName (readElements true {} Field.all) readMembers

/-! ### Writing -/

/-- **Options as JSON.** -/
def json (o : Options) : List Char :=
  Json.objectText
    [Json.memberText Field.functionName.name (Json.quote o.functionName.toList),
      Json.memberText Field.classifierName.name (Json.quote o.classifierName.toList),
      Json.memberText Field.indent.name (Decimal.digits o.indent)]

end Options
end Matlab
end SignatureAutomata
