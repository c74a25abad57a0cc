import SignatureAutomata.Json.Quoted

/-! # Compact JSON texts

Values as JSON without any space.
-/

namespace SignatureAutomata
namespace Json

/-- An array of values that are written already. -/
def arrayText (items : List (List Char)) : List Char :=
  '[' :: List.intercalate [','] items ++ [']']

/-- A member of an object, its value being written already. -/
def memberText (key : String) (value : List Char) : List Char :=
  quote key.toList ++ ':' :: value

/-- An object of members that are written already. -/
def objectText (members : List (List Char)) : List Char :=
  '\x7b' :: List.intercalate [','] members ++ ['\x7d']

/-- Natural numbers as an array. -/
def naturalsText (ns : List Nat) : List Char := arrayText (ns.map Decimal.digits)

/-- A symbol of a type. -/
def symbolText : (τ : SymbolType) → τ.Symbol → List Char
  | .integer _, v => Decimal.ofInt v.val
  | .text, v => quote v.toList

end Json
end SignatureAutomata
