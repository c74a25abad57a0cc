import SignatureAutomata.Decimal.Integer
import SignatureAutomata.Text.Blank
import SignatureAutomata.Text.Quoted

/-! # Symbol types

The values that signatures speak of are integers of one of five types, or texts.
`SymbolType.Symbol` is the type of the values; everything that depends on it, such
as how a value is read and written, is a function of the `SymbolType`.
-/

namespace SignatureAutomata

/-- **The integer types**: signed or unsigned, of 32 or 64 bits.  `size` counts
things and is as wide as `uint64`. -/
inductive IntegerType where
  | int32
  | int64
  | uint32
  | uint64
  | size
  deriving DecidableEq

namespace IntegerType

/-- The least value. -/
def lower : IntegerType → Int
  | .int32 => -0x80000000
  | .int64 => -0x8000000000000000
  | .uint32 => 0
  | .uint64 => 0
  | .size => 0

/-- The greatest value. -/
def upper : IntegerType → Int
  | .int32 => 0x7FFFFFFF
  | .int64 => 0x7FFFFFFFFFFFFFFF
  | .uint32 => 0xFFFFFFFF
  | .uint64 => 0xFFFFFFFFFFFFFFFF
  | .size => 0xFFFFFFFFFFFFFFFF

/-- The short name, as messages give it. -/
def name : IntegerType → String
  | .int32 => "i32"
  | .int64 => "i64"
  | .uint32 => "u32"
  | .uint64 => "u64"
  | .size => "usize"

/-- **The integers of a type.** -/
abbrev Value (t : IntegerType) : Type := { n : Int // t.lower ≤ n ∧ n ≤ t.upper }

/-- An integer as one of the type, if it is within the bounds. -/
def ofInt? (t : IntegerType) (n : Int) : Option t.Value :=
  if h : t.lower ≤ n ∧ n ≤ t.upper then some ⟨n, h⟩ else none

@[simp] theorem ofInt?_val {t : IntegerType} (v : t.Value) : t.ofInt? v.val = some v :=
  dif_pos v.property

end IntegerType

/-- **The types of the values that signatures speak of.** -/
inductive SymbolType where
  | integer (type : IntegerType)
  | text
  deriving DecidableEq

namespace SymbolType

/-- The values of a symbol type. -/
abbrev Symbol : SymbolType → Type
  | .integer type => type.Value
  | .text => String

instance instDecidableEqSymbol : (τ : SymbolType) → DecidableEq τ.Symbol
  | .integer type => inferInstanceAs (DecidableEq type.Value)
  | .text => inferInstanceAs (DecidableEq String)

/-- A value as plain text. -/
def display : (τ : SymbolType) → τ.Symbol → List Char
  | .integer _, v => Decimal.ofInt v.val
  | .text, v => v.toList

/-- A value as it is shown among other text: texts are quoted. -/
def quote : (τ : SymbolType) → τ.Symbol → String
  | .integer _, v => String.ofList (Decimal.ofInt v.val)
  | .text, v => Text.quote v

/-- Reads a value that was written as plain text.  Any text is one of the texts. -/
def read : (τ : SymbolType) → List Char → Except Decimal.IntegerFault τ.Symbol
  | .integer type, s =>
      match Decimal.readInteger type.lower type.upper s with
      | .error fault => .error fault
      | .ok n =>
          match type.ofInt? n with
          | some v => .ok v
          | none => .error .tooLarge
  | .text, s => .ok (String.ofList s)

end SymbolType
end SignatureAutomata
