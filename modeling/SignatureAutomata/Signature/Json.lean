import SignatureAutomata.Json.Value
import SignatureAutomata.Json.Written
import SignatureAutomata.Signature

/-! # Signatures as JSON

A signature is an array of its positions.  A literal is an object whose only member
has the key `Literal`; the other positions are the names of their cases.  Those are
also read in the form of a literal, as objects with the value `null`.
-/

namespace SignatureAutomata

/-- **The cases of a position.** -/
inductive TokenCase where
  | literal
  | any
  | anySequence
  deriving DecidableEq

namespace TokenCase

/-- All cases. -/
def all : List TokenCase := [.literal, .any, .anySequence]

/-- The name of a case. -/
def name : TokenCase → String
  | .literal => "Literal"
  | .any => "Any"
  | .anySequence => "AnySequence"

/-- The case with a given name. -/
def ofName? (name : String) : Option TokenCase := all.find? (·.name == name)

@[simp] theorem ofName?_name (c : TokenCase) : ofName? c.name = some c := by
  cases c <;> rfl

/-- Reads the name of a case, as the key of an object is read. -/
def read : Json.Reader TokenCase := fun s => do
  let (name, rest) ← Json.key s
  match ofName? (String.ofList name) with
  | some c => .ok (c, rest)
  | none => .error (.data (.unknownCase (String.ofList name) (all.map TokenCase.name)))

end TokenCase

namespace Token

/-- A position as JSON. -/
def json (τ : SymbolType) : Token τ.Symbol → List Char
  | .literal v => Json.objectText [Json.memberText TokenCase.literal.name (Json.symbolText τ v)]
  | .any => Json.quote TokenCase.any.name.toList
  | .anySequence => Json.quote TokenCase.anySequence.name.toList

/-- Reads the value that belongs to a case, and so the position. -/
def readValue (τ : SymbolType) : TokenCase → Json.Reader (Token τ.Symbol)
  | .literal => (Json.symbol τ).map .literal
  | .any => Json.null.map fun _ => .any
  | .anySequence => Json.null.map fun _ => .anySequence

/-- The position of a case that comes without a value. -/
def ofBareCase (τ : SymbolType) : TokenCase → Except Json.Failure (Token τ.Symbol)
  | .literal => .error (.data (.wrongType .bareCase .caseWithValue))
  | .any => .ok .any
  | .anySequence => .ok .anySequence

/-- Reads a position from an object, behind the opening brace.  The object has one
member, whose key is the name of a case. -/
def readObject (τ : SymbolType) : Json.Reader (Token τ.Symbol) := fun s =>
  match Json.skipSpace s with
  | [] => .error .endOfText
  | c :: rest => do
      let (tokenCase, rest) ← TokenCase.read (c :: rest)
      let (token, rest) ← readValue τ tokenCase (← Json.skipColon rest)
      .ok (token, ← Json.skipClosing '\x7d' rest)

/-- **Reads a position.** -/
def read (τ : SymbolType) : Json.Reader (Token τ.Symbol) := fun s =>
  match Json.skipSpace s with
  | [] => .error .endOfText
  | c :: rest => do
      if c = '\x7b' then readObject τ rest
      else if c = '"' then
        let (tokenCase, rest) ← TokenCase.read (c :: rest)
        .ok (← ofBareCase τ tokenCase, rest)
      else .error .malformed

example : read .text "\x7b\"Any\": null\x7d".toList = .ok (.any, []) := by rfl
example : read .text "\x7bnull\x7d".toList = .error .malformed := by rfl
example : read .text "\x7b\"Some\"".toList =
    .error (.data (.unknownCase "Some" ["Literal", "Any", "AnySequence"])) := by rfl

end Token

namespace Signature

/-- **A signature as JSON.** -/
def json (τ : SymbolType) (s : Signature τ.Symbol) : List Char :=
  Json.arrayText (s.tokens.map (Token.json τ))

/-- **The signature of a JSON text.** -/
def ofJson (τ : SymbolType) (text : String) : Except Json.Failure (Signature τ.Symbol) :=
  (Json.document (Json.array (Token.read τ)) text).map (⟨·⟩)

end Signature
end SignatureAutomata
