import SignatureAutomata.Json.Number
import SignatureAutomata.Json.Quoted

/-! # Values in JSON texts

Readers for the kinds of value that a decoder may ask for.  A value of another kind
is refused with what it is: a number, a word or a text is read to its end for that,
of an array or object only the bracket counts.  `skipValue` passes over a value of
any kind.
-/

namespace SignatureAutomata
namespace Json

/-- Reads a number of either sign, if the text begins with one. -/
def signedNumber? : List Char → Option (Except Failure (Number × List Char))
  | [] => none
  | c :: rest =>
      if c = '-' then some (number true rest)
      else if c.isDigit then some (number false (c :: rest))
      else none

/-- **What a text begins with.** -/
def found : List Char → Except Failure Found
  | [] => .error .endOfText
  | c :: rest =>
      if c = 'n' then (skipWord ['u', 'l', 'l'] rest).map fun _ => .null
      else if c = 't' then (skipWord ['r', 'u', 'e'] rest).map fun _ => .truth true
      else if c = 'f' then (skipWord ['a', 'l', 's', 'e'] rest).map fun _ => .truth false
      else if c = '"' then (unquoted rest).map fun (s, _) => .string (String.ofList s)
      else if c = '[' then .ok .array
      else if c = '\x7b' then .ok .object
      else
        match signedNumber? (c :: rest) with
        | some result => result.map fun (n, _) => .number n
        | none => .error .malformed

/-- Refuses what a text begins with, something else being expected. -/
def refuse {β : Type} (expected : Expected) (s : List Char) : Except Failure β :=
  match found s with
  | .ok f => .error (.data (.wrongType f expected))
  | .error e => .error e

/-- Reads a value that begins behind some space with a given character. -/
def opened {β : Type} (c : Char) (expected : Expected) (behind : Reader β) : Reader β := fun s =>
  match skipSpace s with
  | [] => .error .endOfText
  | d :: rest => if d = c then behind rest else refuse expected (d :: rest)

/-- **Reads a text.** -/
def string (expected : Expected) : Reader (List Char) := opened '"' expected unquoted

/-- **Reads the value `null`.** -/
def null : Reader Unit :=
  opened 'n' .null fun s => do .ok ((), ← skipWord ['u', 'l', 'l'] s)

/-- **Reads an array.** -/
def array {β : Type} (element : Reader β) : Reader (List β) := opened '[' .array (elements element)

/-- **Reads a record**: an array or an object, each read behind its bracket. -/
def record {β : Type} (name : String) (fromArray fromObject : Reader β) : Reader β := fun s =>
  match skipSpace s with
  | [] => .error .endOfText
  | c :: rest =>
      if c = '[' then fromArray rest
      else if c = '\x7b' then fromObject rest
      else refuse (.record name) (c :: rest)

/-- A number as an integer of a type. -/
def toInteger (type : IntegerType) : Number → Except Failure type.Value
  | .integer n =>
      match type.ofInt? n with
      | some v => .ok v
      | none => .error (.data (.wrongValue (.number (.integer n)) (.integer type)))
  | x => .error (.data (.wrongType (.number x) (.integer type)))

/-- **Reads an integer of a type.** -/
def integer (type : IntegerType) : Reader type.Value := fun s =>
  match signedNumber? (skipSpace s) with
  | none => refuse (.integer type) (skipSpace s)
  | some result => do
      let (x, rest) ← result
      .ok (← toInteger type x, rest)

/-- Reads a natural number within the bounds of a type. -/
def natural (type : IntegerType) : Reader Nat := (integer type).map (·.val.toNat)

/-- **Reads a symbol of a type.** -/
def symbol : (τ : SymbolType) → Reader τ.Symbol
  | .integer type => integer type
  | .text => (string .string).map String.ofList

/-! ### Passing over values -/

/-- Passes over a value that has no more than `depth` values inside each other. -/
def skipNested : (depth : Nat) → Reader Unit
  | 0, _ => .error .endOfText
  | depth + 1, s =>
      match skipSpace s with
      | [] => .error .endOfText
      | c :: rest =>
          if c = 'n' then do .ok ((), ← skipWord ['u', 'l', 'l'] rest)
          else if c = 't' then do .ok ((), ← skipWord ['r', 'u', 'e'] rest)
          else if c = 'f' then do .ok ((), ← skipWord ['a', 'l', 's', 'e'] rest)
          else if c = '"' then skipUnquoted rest
          else if c = '[' then (elements (skipNested depth)).map (fun _ => ()) rest
          else if c = '\x7b' then members skipKey (fun _ _ => .ok (skipNested depth)) () rest
          else if c = '-' then do .ok ((), ← skipNumber rest)
          else if c.isDigit then do .ok ((), ← skipNumber (c :: rest))
          else .error .malformed

/-- **Passes over a value.**  Every value inside another takes a character of the text,
so its length bounds the depth. -/
def skipValue : Reader Unit := fun s => skipNested s.length s

example : skipValue " [1, \x7b\"a\" : [null, -0.5e9]\x7d] ,".toList = .ok ((), [' ', ',']) := by rfl
example : integer .int32 "2147483648".toList =
    .error (.data (.wrongValue (.number (.integer 2147483648)) (.integer .int32))) := by rfl
example : string .string " [".toList = .error (.data (.wrongType .array .string)) := by rfl

end Json
end SignatureAutomata
