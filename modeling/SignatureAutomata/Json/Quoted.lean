import SignatureAutomata.Json.Reader

/-! # Texts in JSON

A text stands between double quotes.  Quotes, backslashes and control characters are
written with an escape, everything else as it is.  Reading also takes the escapes
that writing does not use: `\/`, and four hexadecimal digits for any character, or
eight in two escapes for one beyond the first 65536.  The two halves of such a pair
stand for nothing alone.
-/

namespace SignatureAutomata
namespace Json

/-! ### Writing -/

/-- A character as it is written inside quotes. -/
def escape (c : Char) : List Char :=
  if c = '"' then ['\\', '"']
  else if c = '\\' then ['\\', '\\']
  else if c = '\x08' then ['\\', 'b']
  else if c = '\x0c' then ['\\', 'f']
  else if c = '\n' then ['\\', 'n']
  else if c = '\r' then ['\\', 'r']
  else if c = '\t' then ['\\', 't']
  else if c.toNat < 0x20 then
    ['\\', 'u', '0', '0', Nat.digitChar (c.toNat / 16), Nat.digitChar (c.toNat % 16)]
  else [c]

/-- **A text between quotes.** -/
def quote (s : List Char) : List Char := '"' :: s.flatMap escape ++ ['"']

/-! ### Reading -/

/-- The value of a hexadecimal digit. -/
def hexValue? (c : Char) : Option Nat :=
  if c.isDigit then some (c.toNat - '0'.toNat)
  else if 'a' ≤ c ∧ c ≤ 'f' then some (c.toNat - 'a'.toNat + 10)
  else if 'A' ≤ c ∧ c ≤ 'F' then some (c.toNat - 'A'.toNat + 10)
  else none

/-- The value of four hexadecimal digits. -/
def fourHex? (a b c d : Char) : Option Nat := do
  let high := (← hexValue? a) * 16 + (← hexValue? b)
  some (high * 256 + (← hexValue? c) * 16 + (← hexValue? d))

/-- Why a text does not go on with four hexadecimal digits.  One of less than four bytes
ends too early for them, whatever it holds. -/
def notFourHex (s : List Char) : Failure :=
  if ((s.take 4).map Char.utf8Size).foldl Nat.add 0 < 4 then .endOfText else .malformed

/-- Reads four hexadecimal digits. -/
def fourHex (s : List Char) : Except Failure (Nat × List Char) :=
  match s with
  | a :: b :: c :: d :: rest =>
      match fourHex? a b c d with
      | some n => .ok (n, rest)
      | none => .error (notFourHex s)
  | _ => .error (notFourHex s)

/-- Whether a number is the first half of a pair. -/
def isLeading (n : Nat) : Bool := 0xD800 ≤ n && n < 0xDC00

/-- Whether a number is the second half of a pair. -/
def isTrailing (n : Nat) : Bool := 0xDC00 ≤ n && n < 0xE000

/-- Reads the character of hexadecimal digits behind `\u`. -/
def hexEscape (s : List Char) : Except Failure (Char × List Char) := do
  let (n, rest) ← fourHex s
  if isTrailing n then .error .malformed
  else if isLeading n then
    match rest with
    | '\\' :: 'u' :: rest =>
        let (m, rest) ← fourHex rest
        if isTrailing m then
          .ok (Char.ofNat (0x10000 + (n - 0xD800) * 0x400 + (m - 0xDC00)), rest)
        else .error .malformed
    | [] => .error .endOfText
    | ['\\'] => .error .endOfText
    | _ => .error .malformed
  else .ok (Char.ofNat n, rest)

/-- The character that a letter behind a backslash stands for. -/
def simpleEscape? : Char → Option Char
  | '"' => some '"'
  | '\\' => some '\\'
  | '/' => some '/'
  | 'b' => some '\x08'
  | 'f' => some '\x0c'
  | 'n' => some '\n'
  | 'r' => some '\r'
  | 't' => some '\t'
  | _ => none

/-- Reads one character inside quotes. -/
def character : List Char → Except Failure (Char × List Char)
  | [] => .error .endOfText
  | '\\' :: [] => .error .endOfText
  | '\\' :: 'u' :: rest => hexEscape rest
  | '\\' :: c :: rest =>
      match simpleEscape? c with
      | some d => .ok (d, rest)
      | none => .error .malformed
  | c :: rest => if c.toNat < 0x20 then .error .malformed else .ok (c, rest)

/-- Passes over one character inside quotes.  Here the halves of a pair may stand
alone. -/
def skipCharacter : List Char → Except Failure (List Char)
  | '\\' :: 'u' :: rest => (fourHex rest).map (·.2)
  | s => (character s).map (·.2)

/-- Reads at most `count` characters, up to the closing quote.  A count that is no less
than the length of the text is used up only where the text ends. -/
def charactersUpTo : (count : Nat) → Reader (List Char)
  | 0, _ => .error .endOfText
  | _ + 1, '"' :: rest => .ok ([], rest)
  | count + 1, s => do
      let (c, rest) ← character s
      let (cs, rest) ← charactersUpTo count rest
      .ok (c :: cs, rest)

/-- Reads a text behind its opening quote. -/
def unquoted : Reader (List Char) := fun s => charactersUpTo s.length s

/-- Passes over at most `count` characters and the closing quote. -/
def skipUpTo : (count : Nat) → Reader Unit
  | 0, _ => .error .endOfText
  | _ + 1, '"' :: rest => .ok ((), rest)
  | count + 1, s => do skipUpTo count (← skipCharacter s)

/-- Passes over a text behind its opening quote. -/
def skipUnquoted : Reader Unit := fun s => skipUpTo s.length s

/-- Reads a key.  It has to be a text. -/
def key : Reader (List Char)
  | '"' :: rest => unquoted rest
  | _ => .error .malformed

/-- Passes over a key. -/
def skipKey : Reader Unit
  | '"' :: rest => skipUnquoted rest
  | _ => .error .malformed

/-! ### Reading what is written -/

theorem hexValue?_digitChar {n : Nat} (h : n < 16) : hexValue? n.digitChar = some n := by
  have hall : ∀ k : Fin 16, hexValue? k.val.digitChar = some k.val := by decide
  exact hall ⟨n, h⟩

/-- The escape that is four hexadecimal digits, for a character that has no other. -/
theorem hexEscape_of_lt {c : Char} (h : c.toNat < 0x20) (rest : List Char) :
    hexEscape ('0' :: '0' :: (c.toNat / 16).digitChar :: (c.toNat % 16).digitChar :: rest) =
      .ok (c, rest) := by
  have hhigh := hexValue?_digitChar (n := c.toNat / 16) (by omega)
  have hlow := hexValue?_digitChar (n := c.toNat % 16) (by omega)
  have hzero : hexValue? '0' = some 0 := rfl
  have hsum : (0 * 16 + 0) * 256 + c.toNat / 16 * 16 + c.toNat % 16 = c.toNat := by omega
  have htrailing : isTrailing c.toNat = false := by
    simp only [isTrailing, Bool.and_eq_false_iff, decide_eq_false_iff_not]
    omega
  have hleading : isLeading c.toNat = false := by
    simp only [isLeading, Bool.and_eq_false_iff, decide_eq_false_iff_not]
    omega
  simp only [hexEscape, fourHex, fourHex?, hhigh, hlow, hzero, bind, Except.bind,
    Option.bind_some, hsum, htrailing, hleading]
  simp

/-- **A character reads back from how it is written.** -/
theorem character_escape (c : Char) (rest : List Char) :
    character (escape c ++ rest) = .ok (c, rest) := by
  unfold escape
  by_cases hquote : c = '"'
  · subst hquote; rfl
  by_cases hbackslash : c = '\\'
  · subst hbackslash; rfl
  by_cases hb : c = '\x08'
  · subst hb; rfl
  by_cases hf : c = '\x0c'
  · subst hf; rfl
  by_cases hn : c = '\n'
  · subst hn; rfl
  by_cases hr : c = '\r'
  · subst hr; rfl
  by_cases ht : c = '\t'
  · subst ht; rfl
  simp only [hquote, hbackslash, hb, hf, hn, hr, ht, if_false]
  by_cases hlt : c.toNat < 0x20
  · rw [if_pos hlt]
    exact hexEscape_of_lt hlt rest
  · rw [if_neg hlt]
    show character (c :: rest) = _
    unfold character
    split <;> simp_all

/-- No character is written with a bare quote in front. -/
theorem escape_append_ne_quote (c : Char) (s t : List Char) : escape c ++ s ≠ '"' :: t := by
  unfold escape
  repeat' split
  all_goals simp_all

theorem length_escape_pos (c : Char) : 0 < (escape c).length := by
  unfold escape
  repeat' split
  all_goals simp

theorem length_le_flatMap_escape (s : List Char) : s.length ≤ (s.flatMap escape).length := by
  induction s with
  | nil => exact Nat.le_refl _
  | cons c s ih =>
      have h := length_escape_pos c
      rw [List.flatMap_cons, List.length_append, List.length_cons]
      omega

theorem charactersUpTo_escape {s : List Char} {count : Nat} (h : s.length < count)
    (rest : List Char) :
    charactersUpTo count (s.flatMap escape ++ '"' :: rest) = .ok (s, rest) := by
  induction s generalizing count with
  | nil =>
      obtain ⟨n, rfl⟩ := Nat.exists_eq_succ_of_ne_zero (Nat.ne_of_gt h)
      rfl
  | cons c s ih =>
      obtain ⟨n, rfl⟩ := Nat.exists_eq_succ_of_ne_zero (Nat.ne_of_gt (Nat.zero_lt_of_lt h))
      have hn : s.length < n := by simpa using h
      rw [List.flatMap_cons, List.append_assoc, charactersUpTo]
      · rw [character_escape]
        simp only [bind, Except.bind, ih hn]
      · exact fun t ht => escape_append_ne_quote c _ t ht

/-- **A text reads back from how it is written.** -/
theorem unquoted_escape (s rest : List Char) :
    unquoted (s.flatMap escape ++ '"' :: rest) = .ok (s, rest) := by
  have h := length_le_flatMap_escape s
  refine charactersUpTo_escape ?_ rest
  rw [List.length_append, List.length_cons]
  omega

example : quote ['a', '"', '\n', '\x01', 'é'] =
    "\"a\\\"\\n\\u0001é\"".toList := by rfl
example : unquoted "\\ud83d\\ude00\\/\" ".toList = .ok (['😀', '/'], [' ']) := by rfl
example : unquoted "\\ud83d\"".toList = .error .malformed := by rfl
example : unquoted "\\u12\"".toList = .error .endOfText := by rfl

end Json
end SignatureAutomata
