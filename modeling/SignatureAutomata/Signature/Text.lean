import SignatureAutomata.Signature
import SignatureAutomata.Symbol

/-! # Signatures as text

Every position of a signature has a text of its own: `*` for one value of any kind,
`..` for any number of values, and otherwise a literal as plain text.  Blanks around
a position do not matter.  A whole signature is shown in parentheses, its positions
separated by a comma and a space.
-/

namespace SignatureAutomata

/-- **Why a text is no position of a signature.** -/
structure TokenError where
  /-- The text as it was given. -/
  token : String
  fault : Decimal.IntegerFault
  deriving DecidableEq

/-- The wording of the error. -/
def TokenError.message (e : TokenError) : String :=
  "invalid signature token `" ++ e.token ++ "`: " ++ e.fault.message

namespace Token

/-- The position that a text stands for. -/
def parse (τ : SymbolType) (text : String) : Except TokenError (Token τ.Symbol) :=
  match Text.trim text.toList with
  | ['*'] => .ok .any
  | ['.', '.'] => .ok .anySequence
  | s =>
      match τ.read s with
      | .ok v => .ok (.literal v)
      | .error fault => .error ⟨text, fault⟩

/-- The text of a position. -/
def text (τ : SymbolType) : Token τ.Symbol → List Char
  | .literal v => τ.display v
  | .any => ['*']
  | .anySequence => ['.', '.']

end Token

namespace Signature

/-- **The signature of a list of texts**, up to the first that is no position. -/
def parse (τ : SymbolType) (texts : List String) : Except TokenError (Signature τ.Symbol) :=
  (texts.mapM (Token.parse τ)).map (⟨·⟩)

/-- The signature in parentheses. -/
def text (τ : SymbolType) (s : Signature τ.Symbol) : List Char :=
  '(' :: List.intercalate [',', ' '] (s.tokens.map (Token.text τ)) ++ [')']

end Signature
end SignatureAutomata
