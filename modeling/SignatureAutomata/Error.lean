import SignatureAutomata.Json.Failure
import SignatureAutomata.Matcher
import SignatureAutomata.Matlab.Options
import SignatureAutomata.Nfa
import SignatureAutomata.Signature.Text

/-! # Errors

What can go wrong in this library, each module having its own cause, in one type.
-/

namespace SignatureAutomata

/-- **An error.** -/
inductive Error where
  /-- A text is no position of a signature. -/
  | token (cause : TokenError)
  /-- A construction step is refused. -/
  | construction (cause : ConstructionError)
  /-- A text does not hold the data it should, as JSON. -/
  | json (cause : Json.Failure)
  /-- A matcher has a fault. -/
  | matcher (cause : MatcherFault)
  /-- A name cannot be used. -/
  | name (cause : Matlab.InvalidName)
  deriving DecidableEq

/-- The wording of an error.  There is none for a text that is no JSON at all. -/
def Error.message : Error → Option String
  | .token cause => some cause.message
  | .construction cause => some cause.message
  | .json (.data fault) => some ("malformed JSON: " ++ fault.message)
  | .json _ => none
  | .matcher cause => some ("malformed matcher: " ++ cause.message)
  | .name cause => some cause.message

end SignatureAutomata
