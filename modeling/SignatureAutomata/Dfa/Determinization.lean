import SignatureAutomata.Dfa
import SignatureAutomata.Nfa.Simulation

/-! # Determinization

The states of the deterministic automaton are the sets that a run of the
nondeterministic one can be in.  They are found by a breadth-first survey from
the closure of the start, following `Nfa.step` on each column, so a state's number
is its place in the order of discovery.  An automaton with `n` states has at most
`2 ^ n` sets of them, which bounds the survey.

A set without members is a state like any other: the dead state, which leads only
to itself.
-/

namespace SignatureAutomata

/-- **A state of a deterministic automaton when it is found**: its number, its set
and whether it accepts. -/
structure Discovery where
  state : Nat
  subset : StateSet
  final : Bool
  deriving DecidableEq

namespace Nfa

/-- The codes to determinize over: `Code.sigma` and those of the alphabet now. -/
def columns {α : Type} (A : Alphabet α) : List Nat := Code.sigma :: A.codes

/-- Where a set leads, column by column. -/
def successors (N : Nfa) (columns : List Nat) (S : StateSet) : List StateSet :=
  columns.map (N.step S)

/-- What is said of a set when it is found. -/
def discovery (N : Nfa) (state : Nat) (S : StateSet) : Discovery :=
  ⟨state, S, S.intersects N.accepting⟩

/-- The survey of the sets that runs can be in. -/
def surveySubsets (N : Nfa) (columns : List Nat) : Survey StateSet Discovery :=
  survey (N.successors columns) N.discovery (Nat.pow 2 N.numStates) [N.startClosure]

/-- The deterministic automaton that a survey over some columns has found: its
states are the sets and its rows are those of the survey. -/
def toDfa (N : Nfa) (columns : List Nat) (v : Survey StateSet Discovery) : Dfa where
  columns
  subsets := v.found
  accepting := .ofList ((List.range v.found.length).filter fun s =>
    ((v.found[s]?).map (·.intersects N.accepting)).getD false)
  rows := v.rows

variable {α : Type} (N : Nfa) (A : Alphabet α)

/-- **The deterministic automaton** with a column for every symbol registered now. -/
def determinize : Dfa := N.toDfa (columns A) (N.surveySubsets (columns A))

/-- The states other than the start state, as they were found. -/
def discoveries : List Discovery := (N.surveySubsets (columns A)).reports

@[simp] theorem columns_determinize : (N.determinize A).columns = columns A := rfl

@[simp] theorem numSymbols_determinize : (N.determinize A).numSymbols = A.size := by
  simp [Dfa.numSymbols, columns, Alphabet.codes]

end Nfa
end SignatureAutomata
