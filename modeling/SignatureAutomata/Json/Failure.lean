import SignatureAutomata.Decimal.Shortest
import SignatureAutomata.Symbol

/-! # Why a JSON text is refused

A text is read from the left, and the first thing wrong with it is the failure: it
ends too early, it is no JSON, or it holds data of the wrong kind.  The last is a
`DataFault`, which says what was found and what was expected instead.
-/

namespace SignatureAutomata
namespace Json

/-- **A number of a JSON text.**  Written without point and exponent, it is an integer
if it lies within the bounds of 64 bits, signed or unsigned. -/
inductive Number where
  | integer (value : Int)
  | float (negative : Bool) (magnitude : Decimal.Binary64)
  deriving DecidableEq

/-- **What a text holds** where something else was expected. -/
inductive Found where
  | null
  | truth (value : Bool)
  | number (value : Number)
  | string (value : String)
  | array
  | object
  /-- The name of a case, without the value that belongs to it. -/
  | bareCase
  deriving DecidableEq

/-- **What was expected.** -/
inductive Expected where
  | integer (type : IntegerType)
  | string
  | array
  | null
  /-- A case with the value that belongs to it. -/
  | caseWithValue
  | record (name : String)
  deriving DecidableEq

/-- **What is wrong with data.** -/
inductive DataFault where
  /-- A value of another kind. -/
  | wrongType (found : Found) (expected : Expected)
  /-- A number out of bounds. -/
  | wrongValue (found : Found) (expected : Expected)
  | missingField (name : String)
  | duplicateField (name : String)
  | unknownField (name : String) (known : List String)
  | unknownCase (name : String) (known : List String)
  /-- An array with too few of a record's fields. -/
  | tooShort (length : Nat) (record : String) (fields : Nat)
  deriving DecidableEq

/-- **Why a text is refused.** -/
inductive Failure where
  /-- The text ends too early. -/
  | endOfText
  /-- The text is no JSON. -/
  | malformed
  | data (fault : DataFault)
  deriving DecidableEq

/-! ### Wording -/

/-- A text between backticks. -/
def inBackticks (s : String) : String := "`" ++ s ++ "`"

/-- What was found, in words. -/
def Found.text : Found → String
  | .null => "null"
  | .truth value => "boolean " ++ inBackticks (if value then "true" else "false")
  | .number (.integer value) => "integer " ++ inBackticks (String.ofList (Decimal.ofInt value))
  | .number (.float negative magnitude) =>
      "floating point "
        ++ inBackticks (String.ofList ((if negative then ['-'] else []) ++ magnitude.text))
  | .string value => "string " ++ Text.quote value
  | .array => "sequence"
  | .object => "map"
  | .bareCase => "unit variant"

/-- What was expected, in words. -/
def Expected.text : Expected → String
  | .integer type => type.name
  | .string => "a string"
  | .array => "a sequence"
  | .null => "unit"
  | .caseWithValue => "newtype variant"
  | .record name => "struct " ++ name

/-- A choice of names, in words. -/
def choice (names : List String) : String :=
  "one of " ++ String.intercalate ", " (names.map inBackticks)

/-- The wording of a fault. -/
def DataFault.message : DataFault → String
  | .wrongType found expected => "invalid type: " ++ found.text ++ ", expected " ++ expected.text
  | .wrongValue found expected => "invalid value: " ++ found.text ++ ", expected " ++ expected.text
  | .missingField name => "missing field " ++ inBackticks name
  | .duplicateField name => "duplicate field " ++ inBackticks name
  | .unknownField name known =>
      "unknown field " ++ inBackticks name ++ ", expected " ++ choice known
  | .unknownCase name known =>
      "unknown variant " ++ inBackticks name ++ ", expected " ++ choice known
  | .tooShort length record fields =>
      s!"invalid length {length}, expected struct " ++ record ++ s!" with {fields} elements"

end Json
end SignatureAutomata
