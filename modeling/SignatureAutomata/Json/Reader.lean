import SignatureAutomata.Json.Failure

/-! # Readers

A reader takes a value off the front of a text and leaves the rest.  This module
has the readers that know nothing of values yet: blanks, fixed words, and what stands
between the brackets of an array or an object.

The lists inside brackets may have any length, so they are read up to a count.  The
count is at least the length of the text; where it is used up, the text has ended.
-/

namespace SignatureAutomata
namespace Json

/-- **A reader**: from a text, a value and the rest of the text. -/
abbrev Reader (β : Type) := List Char → Except Failure (β × List Char)

/-- Reads something else from what was read. -/
def Reader.map {β γ : Type} (f : β → γ) (reader : Reader β) : Reader γ := fun s => do
  let (x, rest) ← reader s
  .ok (f x, rest)

/-- Whether a character may stand between the parts of a text: space, tab, line feed
or carriage return. -/
def isSpace (c : Char) : Bool := c = ' ' || c = '\t' || c = '\n' || c = '\r'

/-- Drops what stands before the next part. -/
def skipSpace (s : List Char) : List Char := s.dropWhile isSpace

/-- Drops a fixed word. -/
def skipWord : List Char → List Char → Except Failure (List Char)
  | [], s => .ok s
  | _ :: _, [] => .error .endOfText
  | w :: ws, c :: cs => if c = w then skipWord ws cs else .error .malformed

/-- Drops the colon before the value of a member. -/
def skipColon (s : List Char) : Except Failure (List Char) :=
  match skipSpace s with
  | [] => .error .endOfText
  | ':' :: rest => .ok rest
  | _ => .error .malformed

/-- **What comes next inside brackets.** -/
inductive Next where
  /-- An item, with the text from there on. -/
  | item (s : List Char)
  /-- The closing bracket, with the text behind it. -/
  | closing (rest : List Char)

/-- Looks for the next item, before which there is a comma unless it is the first. -/
def next (close : Char) (first : Bool) (s : List Char) : Except Failure Next :=
  match skipSpace s with
  | [] => .error .endOfText
  | c :: rest =>
      if c = close then .ok (.closing rest)
      else if first then .ok (.item (c :: rest))
      else if c = ',' then
        match skipSpace rest with
        | [] => .error .endOfText
        | d :: rest => if d = close then .error .malformed else .ok (.item (d :: rest))
      else .error .malformed

/-- Drops the closing bracket where no item may follow. -/
def skipClosing (close : Char) (s : List Char) : Except Failure (List Char) :=
  match skipSpace s with
  | [] => .error .endOfText
  | c :: rest => if c = close then .ok rest else .error .malformed

/-- Reads at most `count` elements, up to the bracket that closes their array. -/
def elementsUpTo {β : Type} (element : Reader β) : (count : Nat) → (first : Bool) → Reader (List β)
  | 0, _, _ => .error .endOfText
  | count + 1, first, s => do
      match ← next ']' first s with
      | .closing rest => .ok ([], rest)
      | .item s =>
          let (x, rest) ← element s
          let (xs, rest) ← elementsUpTo element count false rest
          .ok (x :: xs, rest)

/-- **Reads the elements of an array** behind its opening bracket. -/
def elements {β : Type} (element : Reader β) : Reader (List β) := fun s =>
  elementsUpTo element s.length true s

/-- Reads at most `count` members, up to the bracket that closes their object.  Each
key decides from what was read so far how its value is read. -/
def membersUpTo {κ σ : Type} (key : Reader κ) (member : κ → σ → Except Failure (Reader σ)) :
    (count : Nat) → (first : Bool) → σ → Reader σ
  | 0, _, _, _ => .error .endOfText
  | count + 1, first, state, s => do
      match ← next '\x7d' first s with
      | .closing rest => .ok (state, rest)
      | .item s =>
          let (k, rest) ← key s
          let value ← member k state
          let rest ← skipColon rest
          let (state, rest) ← value rest
          membersUpTo key member count false state rest

/-- **Reads the members of an object** behind its opening bracket. -/
def members {κ σ : Type} (key : Reader κ) (member : κ → σ → Except Failure (Reader σ))
    (state : σ) : Reader σ := fun s =>
  membersUpTo key member s.length true state s

/-- **Reads a whole text**: one value, with nothing but space behind it. -/
def document {β : Type} (reader : Reader β) (text : String) : Except Failure β := do
  let (x, rest) ← reader text.toList
  if (skipSpace rest).isEmpty then .ok x else .error .malformed

end Json
end SignatureAutomata
