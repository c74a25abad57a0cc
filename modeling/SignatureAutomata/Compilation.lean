import SignatureAutomata.Matcher
import SignatureAutomata.Record
import SignatureAutomata.Signature.Automaton

/-! # From a signature to a matcher

A signature is compiled in three stages: into an automaton, from there into a
deterministic one, and from there into a table.  Every stage adds its records to
the log.
-/

namespace SignatureAutomata

/-- **The outcome of compiling a signature**, stage by stage. -/
structure Compilation (α : Type) where
  /-- The alphabet, grown by the literals. -/
  alphabet : Alphabet α
  nfa : Nfa
  dfa : Dfa
  matcher : Matcher α
  /-- The log of all stages, in order. -/
  records : List (Record α)

namespace Signature
variable {α : Type} [DecidableEq α]

/-- **Compiles a signature** over an alphabet. -/
def compile (s : Signature α) (A : Alphabet α) : Except ConstructionError (Compilation α) :=
  match s.automaton A with
  | .error e => .error e
  | .ok (alphabet, nfa) =>
      let dfa := nfa.determinize alphabet
      let matcher := Matcher.ofDfa alphabet dfa
      .ok
        { alphabet, nfa, dfa, matcher
          records :=
            A.registrations s.literals
              ++ [.compiled s.tokens.length nfa.numStates]
              ++ (nfa.discoveries alphabet).map .discovered
              ++ [.determinized nfa.numStates dfa.numStates dfa.columns.length,
                  .emitted matcher.numStates matcher.numColumns matcher.accepting.length] }

/-- Whether a list of values matches, decided over an alphabet of its own. -/
def accepts (s : Signature α) (values : List α) : Except ConstructionError Bool :=
  (s.automaton .empty).map fun (alphabet, nfa) =>
    (nfa.determinize alphabet).accepts alphabet values

end Signature
end SignatureAutomata
