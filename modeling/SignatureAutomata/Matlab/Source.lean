import SignatureAutomata.Matcher
import SignatureAutomata.Matlab.Options
import SignatureAutomata.Symbol

/-! # Matchers as MATLAB source

A matcher becomes a file with two functions.  The first holds the table, row by row,
and folds its input through it; the second turns a value into the column that holds
its transitions.  Rows and columns are counted from one, so every state is written
one higher than it is, and the column of a symbol equals its code.

Integers are written in the class of their type, never as floating point numbers,
and arrive in an array.  Texts are written between single quotes, a quote inside
being doubled, and arrive in a cell array.
-/

namespace SignatureAutomata

namespace IntegerType

/-- The class of the integers of a type. -/
def className : IntegerType → String
  | .int32 => "int32"
  | .int64 => "int64"
  | .uint32 => "uint32"
  | .uint64 => "uint64"
  | .size => "uint64"

end IntegerType

namespace Matlab

/-- A text between single quotes. -/
def quote (s : List Char) : List Char :=
  '\'' :: s.flatMap (fun c => if c = '\'' then ['\'', '\''] else [c]) ++ ['\'']

/-- The expression that is true if a variable equals a value. -/
def equalityTest : (τ : SymbolType) → τ.Symbol → (var : List Char) → List Char
  | .integer type, v, var =>
      "isequal(".toList ++ var ++ [',', ' '] ++ type.className.toList ++ '(' :: Decimal.ofInt v.val
        ++ [')', ')']
  | .text, v, var => "strcmp(".toList ++ var ++ [',', ' '] ++ quote v.toList ++ [')']

/-- The expression for one element of a variable. -/
def element : SymbolType → (var index : List Char) → List Char
  | .integer _, var, index => var ++ '(' :: index ++ [')']
  | .text, var, index => var ++ '\x7b' :: index ++ ['\x7d']

/-- Numbers separated by spaces. -/
def numbers (ns : List Nat) : List Char := List.intercalate [' '] (ns.map Decimal.digits)

variable {τ : SymbolType} (m : Matcher τ.Symbol) (o : Options)

/-- The lines of the function that matches. -/
def matcherLines : List (List Char) :=
  let pad := o.pad
  ["function matched = ".toList ++ o.functionName.toList ++ "(input)".toList,
    '%' :: o.functionName.toList.map Char.toUpper ++ " Generated signature matcher.".toList,
    "%   Column ".toList ++ Decimal.digits Code.sigma
      ++ " of TABLE is taken by values matching no literal.".toList,
    pad ++ "table = [".toList]
  ++ m.table.map (fun row => pad ++ pad ++ numbers (row.map (· + 1)))
  ++ [pad ++ "];".toList,
    pad ++ "accepting = logical([".toList
      ++ numbers ((List.range m.numStates).map fun s => (m.isAccepting s).toNat) ++ "]);".toList,
    pad ++ "state = ".toList ++ Decimal.digits (m.start + 1) ++ [';'],
    pad ++ "for k = 1:numel(input)".toList,
    pad ++ pad ++ "state = table(state, ".toList ++ o.classifierName.toList ++ '(' ::
      element τ "input".toList ['k'] ++ "));".toList,
    pad ++ "end".toList,
    pad ++ "matched = accepting(state);".toList,
    "end".toList]

/-- The lines that test a value for one literal after another, the first of them
having a given code. -/
def branches (pad keyword : List Char) (code : Nat) : List τ.Symbol → List (List Char)
  | [] => []
  | v :: vs =>
      [pad ++ keyword ++ ' ' :: equalityTest τ v "value".toList,
        pad ++ pad ++ "code = ".toList ++ Decimal.digits code ++ [';']]
      ++ branches pad "elseif".toList (code + 1) vs

/-- The lines of the function that turns a value into its code. -/
def classifierLines : List (List Char) :=
  let pad := o.pad
  ["function code = ".toList ++ o.classifierName.toList ++ "(value)".toList,
    pad ++ "code = ".toList ++ Decimal.digits Code.sigma ++ [';']]
  ++ branches pad "if".toList Code.firstSymbol m.symbols
  ++ (if m.symbols.isEmpty then [] else [pad ++ "end".toList])
  ++ ["end".toList]

/-- The lines of both functions, one after the other, with an empty one between them. -/
def sourceText : List Char :=
  (matcherLines m o ++ [] :: classifierLines m o).flatMap (· ++ ['\n'])

/-- How many bytes a text takes. -/
def byteCount (text : List Char) : Nat := text.foldr (fun c count => c.utf8Size + count) 0

/-- The most bytes that a text can take. -/
def capacity : Nat := Nat.pow 2 63 - 1

/-- **Why a matcher has no source.** -/
inductive SourceFault where
  /-- The options have a name that cannot be used. -/
  | name (cause : InvalidName)
  /-- The source takes more bytes than a text can.  Nothing answers this fault; the program
  stops. -/
  | capacityOverflow
  deriving DecidableEq

/-- The wording of a fault. -/
def SourceFault.message : SourceFault → String
  | .name cause => cause.message
  | .capacityOverflow => "capacity overflow"

/-- **The source of a matcher**, if the options allow it and it is not too long for a text.
One level of indentation is made before anything else. -/
def source : Except SourceFault (List Char) :=
  match o.validate with
  | .error e => .error (.name e)
  | .ok () =>
      if capacity < o.indent then .error .capacityOverflow
      else if capacity < byteCount (sourceText m o) then .error .capacityOverflow
      else .ok (sourceText m o)

end Matlab
end SignatureAutomata
