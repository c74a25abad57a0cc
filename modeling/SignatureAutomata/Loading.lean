import SignatureAutomata.Error
import SignatureAutomata.Matcher.Json
import SignatureAutomata.Matlab.Options.Json

/-! # Loading matchers and options

What comes from a JSON text is checked before it is used: a matcher must have no
fault, options must have names that can be used.  A text that cannot be read at all
is refused first.
-/

namespace SignatureAutomata

/-- **The matcher of a JSON text**, if it has no fault. -/
def Matcher.load (τ : SymbolType) (text : String) : Except Error (Matcher τ.Symbol) := do
  let m ← (Json.document (Matcher.read τ) text).mapError .json
  m.validate.mapError .matcher
  .ok m

/-- **The options of a JSON text**, if their names can be used. -/
def Matlab.Options.load (text : String) : Except Error Matlab.Options := do
  let o ← (Json.document Matlab.Options.read text).mapError .json
  o.validate.mapError .name
  .ok o

end SignatureAutomata
