import SignatureAutomata.Exploration
import SignatureAutomata.Nfa

/-! # Closures under epsilon edges

The closure of a set of states holds what can be reached from it along epsilon
edges alone.  It is found by a survey, which ends on cycles too because it never
expands a state twice; or, while the closures of all states are kept, put together
from those.

The two ways differ in one point only: a number that is no state of the automaton
has no kept closure, so it is dropped, whereas a survey keeps every number it
starts from.
-/

namespace SignatureAutomata
namespace Nfa

/-- What is reached from a list of states along epsilon edges.  Every state met is
one of the list or the end of an edge, which bounds the rounds. -/
def surveyEpsilon (N : Nfa) (states : List Nat) : StateSet :=
  .ofList (reachable (N.targetList · Code.epsilon) (states.length + N.transitions.length)
    states)

/-- Keeps the closure of every state, unless they are kept already. -/
def cacheClosures (N : Nfa) : Nfa :=
  match N.closures with
  | some _ => N
  | none =>
      { N with closures := some ((List.range N.numStates).map fun s => N.surveyEpsilon [s]) }

/-- The union of the kept closures of some states. -/
def unionOfClosures (closures : List StateSet) (states : List Nat) : StateSet :=
  states.foldl (fun S s => S.union (closures[s]?.getD ∅)) ∅

/-- **The closure of a set of states** under epsilon edges. -/
def epsilonClosure (N : Nfa) (S : StateSet) : StateSet :=
  match N.closures with
  | some closures => unionOfClosures closures S.members
  | none => N.surveyEpsilon S.members

/-- The closure of the start state. -/
def startClosure (N : Nfa) : StateSet := N.epsilonClosure (.singleton N.start)

@[simp] theorem edges_cacheClosures (N : Nfa) : N.cacheClosures.edges = N.edges := by
  unfold cacheClosures
  split <;> rfl

@[simp] theorem numStates_cacheClosures (N : Nfa) :
    N.cacheClosures.numStates = N.numStates := by
  unfold cacheClosures
  split <;> rfl

end Nfa
end SignatureAutomata
