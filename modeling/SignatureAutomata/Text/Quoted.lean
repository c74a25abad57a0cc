import SignatureAutomata.Text.Printable

/-! # Quoted texts

A text is shown between double quotes.  Quotes and backslashes are written with a
backslash before them, the usual control characters with a letter, and any other
character that would not show by itself with its code point in hexadecimal between
braces.
-/

namespace SignatureAutomata
namespace Text

/-- The lower-case hexadecimal digits of a number, without leading zeros. -/
def hexDigits (n : Nat) : List Char := Nat.toDigits 16 n

/-- A character as it is shown inside quotes. -/
def quoteChar (c : Char) : List Char :=
  if c = '"' then ['\\', '"']
  else if c = '\\' then ['\\', '\\']
  else if c = '\n' then ['\\', 'n']
  else if c = '\r' then ['\\', 'r']
  else if c = '\t' then ['\\', 't']
  else if c.toNat = 0 then ['\\', '0']
  else if extendsGrapheme c || !isPrintable c then
    ['\\', 'u', '{'] ++ hexDigits c.toNat ++ ['}']
  else [c]

/-- **A text between quotes.** -/
def quote (s : String) : String :=
  String.ofList ('"' :: s.toList.flatMap quoteChar ++ ['"'])

example : quote "it's \"é\"\n" = "\"it's \\\"é\\\"\\n\"" := by decide +kernel
example : quoteChar (Char.ofNat 0x301) = "\\u\x7b301\x7d".toList := by decide +kernel
example : quoteChar (Char.ofNat 0x3164) = "\\u\x7b3164\x7d".toList := by decide +kernel
example : quoteChar (Char.ofNat 0xFF9E) = [Char.ofNat 0xFF9E] := by decide +kernel

end Text
end SignatureAutomata
